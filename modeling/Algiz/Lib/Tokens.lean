/-
  Tokens in a list, over any alphabet.

  A token stands alone in a text if on either side of it there is the delimiter or an end of the
  text: that is, if it is a field of the text (`mem_fields_iff`). A list of tokens is written with
  commas between them and blanks around them. What stands alone in such a list between blanks is
  one of its tokens (`Padded.token_of_standsAlone`); a token with a comma beside it does not stand
  alone.
-/
import Mathlib.Data.List.Basic
import Algiz.Lib.Lines

namespace Algiz.Lib

variable {α : Type*} {c d : α} {t s : List α}

/-- On either side there is the delimiter or an end. -/
def StandsAlone (d : α) (t s : List α) : Prop :=
  ∃ front back, s = front ++ (t ++ back) ∧ (front = [] ∨ front.getLast? = some d) ∧
    (back = [] ∨ back.head? = some d)

/-- What stands alone in a part behind a delimiter does so in the whole. -/
theorem StandsAlone.append_cons (h : StandsAlone d t s) (l : List α) :
    StandsAlone d t (l ++ d :: s) := by
  obtain ⟨front, back, rfl, hfront, hback⟩ := h
  refine ⟨l ++ d :: front, back, by simp, Or.inr ?_, hback⟩
  rw [List.getLast?_append_of_ne_nil _ (List.cons_ne_nil _ _)]
  rcases hfront with rfl | hfront
  · rfl
  · rw [List.getLast?_cons, hfront]
    rfl

section Fields

variable [DecidableEq α]

/-- What stands alone is a field. -/
theorem mem_fields_iff (ht : d ∉ t) : t ∈ fields d s ↔ StandsAlone d t s := by
  constructor
  · intro h
    induction s using lineInduction d with
    | tail s hs =>
      rw [fields_of_not_mem d hs, List.mem_singleton] at h
      exact ⟨[], [], by rw [h]; simp, Or.inl rfl, Or.inl rfl⟩
    | line l rest hl ih =>
      rw [fields_line d hl] at h
      rcases List.mem_cons.mp h with rfl | h
      · exact ⟨[], d :: rest, rfl, Or.inl rfl, Or.inr rfl⟩
      · exact (ih h).append_cons l
  · rintro ⟨front, back, rfl, hfront, hback⟩
    have hhead : t ∈ fields d (t ++ back) := by
      rcases hback with rfl | hback
      · rw [List.append_nil, fields_of_not_mem d ht]
        exact List.mem_singleton_self t
      · obtain ⟨rest, rfl⟩ := List.head?_eq_some_iff.mp hback
        rw [fields_line d ht]
        exact List.mem_cons_self
    rcases hfront with rfl | hfront
    · exact hhead
    · obtain ⟨before, rfl⟩ := List.getLast?_eq_some_iff.mp hfront
      rw [List.append_assoc, List.singleton_append, fields_append_cons]
      exact List.mem_append_right _ hhead

/-- What stands alone without a comma in it does so between two commas. -/
theorem StandsAlone.exists_field (h : StandsAlone d t s) (hne : t ≠ []) (hc : c ∉ t)
    (hcd : c ≠ d) : ∃ field ∈ fields c s, StandsAlone d t field := by
  induction s using lineInduction c with
  | tail s hs => exact ⟨s, by rw [fields_of_not_mem c hs]; exact List.mem_singleton_self s, h⟩
  | line l rest hl ih =>
    obtain ⟨front, back, heq, hfront, hback⟩ := h
    rw [fields_line c hl]
    rcases List.append_eq_append_iff.mp heq with ⟨x, rfl, hx⟩ | ⟨x, rfl, hx⟩
    · -- the token stands behind the comma
      cases x with
      | nil =>
        obtain ⟨b, t', rfl⟩ := List.exists_cons_of_ne_nil hne
        obtain ⟨rfl, -⟩ := List.cons.inj hx
        exact absurd List.mem_cons_self hc
      | cons b x =>
        obtain ⟨rfl, rfl⟩ := List.cons.inj hx
        have hlast : x = [] ∨ x.getLast? = some d := by
          rcases hfront with hnil | hfront
          · exact absurd hnil (List.append_ne_nil_of_right_ne_nil _ (List.cons_ne_nil _ _))
          · rw [List.getLast?_append_of_ne_nil _ (List.cons_ne_nil _ _)] at hfront
            cases x with
            | nil => exact Or.inl rfl
            | cons a x => exact Or.inr (by rwa [List.getLast?_cons_cons] at hfront)
        obtain ⟨field, hfield, halone⟩ := ih ⟨x, back, rfl, hlast, hback⟩
        exact ⟨field, List.mem_cons_of_mem _ hfield, halone⟩
    · -- the token begins before the comma, and so it ends before it
      rcases List.append_eq_append_iff.mp hx with ⟨y, rfl, rfl⟩ | ⟨y, rfl, hy⟩
      · refine ⟨_, List.mem_cons_self, front, y, rfl, hfront, ?_⟩
        cases y with
        | nil => exact Or.inl rfl
        | cons a y =>
          rcases hback with hnil | hback
          · cases hnil
          · exact Or.inr hback
      · cases y with
        | nil =>
          rcases hback with rfl | hback
          · cases hy
          · rw [List.nil_append] at hy
            rw [← hy, List.head?_cons, Option.some_inj] at hback
            exact absurd hback hcd
        | cons a y =>
          obtain ⟨rfl, -⟩ := List.cons.inj hy
          exact absurd (List.mem_append_right _ List.mem_cons_self) hc

end Fields

/-! ## Lists of tokens -/

/-- A token with what is written around it. -/
structure Padded (α : Type*) where
  left : List α
  token : List α
  right : List α

namespace Padded

/-- The token as it is written. -/
def text (e : Padded α) : List α := e.left ++ (e.token ++ e.right)

/-- The tokens as they are written, with commas between them. -/
def written (c : α) (es : List (Padded α)) : List α := [c].intercalate (es.map text)

/-- Blanks stand around the token, and in the token there is none, and no comma. -/
structure WellFormed (blank : α → Bool) (c : α) (e : Padded α) : Prop where
  left : ∀ a ∈ e.left, blank a = true
  right : ∀ a ∈ e.right, blank a = true
  token : ∀ a ∈ e.token, blank a = false ∧ a ≠ c

variable {blank : α → Bool} {e : Padded α}

theorem not_mem_text (h : e.WellFormed blank c) (hc : blank c = false) : c ∉ e.text := by
  intro hin
  rcases List.mem_append.mp hin with hleft | hin
  · exact absurd (h.left c hleft) (by rw [hc]; exact Bool.false_ne_true)
  · rcases List.mem_append.mp hin with htoken | hright
    · exact (h.token c htoken).2 rfl
    · exact absurd (h.right c hright) (by rw [hc]; exact Bool.false_ne_true)

/-- What begins as blanks do is not free of them. -/
theorem eq_nil_of_blank {x : List α} (hblank : ∀ a ∈ x, blank a = true)
    (hnone : ∀ a ∈ x, blank a = false) : x = [] := by
  cases x with
  | nil => rfl
  | cons a x =>
    have htrue := hblank a List.mem_cons_self
    rw [hnone a List.mem_cons_self] at htrue
    cases htrue

/-- A token in front, with a blank or the end behind it. -/
theorem eq_of_append_eq {token right back : List α} (heq : token ++ right = t ++ back)
    (hright : ∀ a ∈ right, blank a = true) (htoken : ∀ a ∈ token, blank a = false)
    (ht : ∀ a ∈ t, blank a = false) (hd : blank d = true)
    (hback : back = [] ∨ back.head? = some d) : t = token := by
  rcases List.append_eq_append_iff.mp heq with ⟨x, rfl, rfl⟩ | ⟨x, rfl, rfl⟩
  · have hx : x = [] := eq_nil_of_blank (fun a ha => hright a (List.mem_append_left _ ha))
      fun a ha => ht a (List.mem_append_right _ ha)
    rw [hx, List.append_nil]
  · have hx : x = [] := by
      by_contra hsome
      obtain ⟨a, x, rfl⟩ := List.exists_cons_of_ne_nil hsome
      rcases hback with hnil | hback
      · cases hnil
      · obtain rfl := Option.some.inj hback
        have hfalse := htoken a (List.mem_append_right _ List.mem_cons_self)
        rw [hd] at hfalse
        cases hfalse
    rw [hx, List.append_nil]

/-- What stands alone in a written token is the token. -/
theorem eq_token (h : StandsAlone d t e.text) (he : e.WellFormed blank c) (hd : blank d = true)
    (hne : t ≠ []) (ht : ∀ a ∈ t, blank a = false) : t = e.token := by
  obtain ⟨front, back, heq, hfront, hback⟩ := h
  have htoken : ∀ a ∈ e.token, blank a = false := fun a ha => (he.token a ha).1
  unfold text at heq
  rcases List.append_eq_append_iff.mp heq with ⟨x, hx, hrest⟩ | ⟨x, hx, hrest⟩
  · -- nothing of the token can stand before what stands alone
    have hnil : x = [] := by
      by_contra hsome
      have hlast : x.getLast? = some d := by
        rcases hfront with hnil | hfront
        · rw [hnil] at hx
          exact absurd (List.append_eq_nil_iff.mp hx.symm).2 hsome
        · rwa [hx, List.getLast?_append_of_ne_nil _ hsome] at hfront
      have hmem : d ∈ x := List.mem_of_getLast? hlast
      rcases List.append_eq_append_iff.mp hrest with ⟨y, rfl, hy⟩ | ⟨y, hy, -⟩
      · refine hne (eq_nil_of_blank (fun a ha => he.right a ?_) ht)
        rw [hy]
        exact List.mem_append_right _ (List.mem_append_left _ ha)
      · have hfalse := htoken d (hy ▸ List.mem_append_left _ hmem)
        rw [hd] at hfalse
        cases hfalse
    rw [hnil, List.nil_append] at hrest
    exact eq_of_append_eq hrest he.right htoken ht hd hback
  · have hnil : x = [] := by
      by_contra hsome
      obtain ⟨a, x, rfl⟩ := List.exists_cons_of_ne_nil hsome
      obtain ⟨b, t, rfl⟩ := List.exists_cons_of_ne_nil hne
      obtain ⟨rfl, -⟩ := List.cons.inj hrest
      have hfalse := ht b List.mem_cons_self
      rw [he.left b (hx ▸ List.mem_append_right _ List.mem_cons_self)] at hfalse
      cases hfalse
    rw [hnil, List.nil_append] at hrest
    exact eq_of_append_eq hrest.symm he.right htoken ht hd hback

/-- What stands alone in a list of tokens is one of them. -/
theorem token_of_standsAlone [DecidableEq α] {es : List (Padded α)}
    (h : StandsAlone d t (written c es)) (hes : ∀ e ∈ es, e.WellFormed blank c)
    (hc : blank c = false) (hd : blank d = true) (hne : t ≠ [])
    (ht : ∀ a ∈ t, blank a = false ∧ a ≠ c) : ∃ e ∈ es, e.token = t := by
  have hcd : c ≠ d := by
    rintro rfl
    rw [hc] at hd
    cases hd
  obtain ⟨field, hfield, halone⟩ := h.exists_field hne (fun hin => (ht c hin).2 rfl) hcd
  cases es with
  | nil =>
    have hnil : fields c (written c ([] : List (Padded α))) = [[]] := rfl
    rw [hnil, List.mem_singleton] at hfield
    subst hfield
    obtain ⟨front, back, heq, -⟩ := halone
    exact absurd (List.append_eq_nil_iff.mp (List.append_eq_nil_iff.mp heq.symm).2).1 hne
  | cons e es =>
    have hsome : (e :: es).map text ≠ [] := List.cons_ne_nil _ _
    unfold written at hfield
    rw [fields_intercalate c hsome, List.mem_flatMap] at hfield
    obtain ⟨part, hpart, hfield⟩ := hfield
    obtain ⟨e', he', rfl⟩ := List.mem_map.mp hpart
    rw [fields_of_not_mem c (not_mem_text (hes e' he') hc), List.mem_singleton] at hfield
    subst hfield
    exact ⟨e', he', (eq_token halone (hes e' he') hd hne fun a ha => (ht a ha).1).symm⟩

end Padded

end Algiz.Lib
