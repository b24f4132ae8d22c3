/-
  Looking for the best of several things by going over them once.

  `scan` keeps the best so far, and goes on with the next one where that is better. `scan_rule` is
  the rule for it: if one of the things is good, and nothing is better than what is good, and this
  one is better than all that is not, then what is kept at the end is good. A scan for something
  less keeps a least thing (`scan_least`).

  `Surpassed` compares by a key first, and where the keys are the same by either of two other
  values. That is no order. There is a best thing where one is a peak: greatest in the key, and
  among those with its key greatest in both values (`scan_best_iff`).
-/
import Mathlib.Data.List.Basic
import Mathlib.Data.Prod.Lex

namespace Algiz.Lib

section Scan

variable {α : Type*} {better : α → α → Bool} {first u : α} {rest : List α} {Good : α → Prop}

/-- What is kept. `better a b` tells whether `b` is better than `a`. -/
def scan (better : α → α → Bool) (first : α) (rest : List α) : α :=
  rest.foldl (fun best next => if better best next then next else best) first

theorem scan_cons (next : α) : scan better first (next :: rest) =
    scan better (if better first next then next else first) rest := rfl

theorem scan_mem : scan better first rest ∈ first :: rest := by
  induction rest generalizing first with
  | nil => exact List.mem_cons_self
  | cons next rest ih =>
    rw [scan_cons]
    split
    · exact List.mem_cons_of_mem first ih
    · have hkept : scan better first rest ∈ first :: rest := ih
      rcases List.mem_cons.mp hkept with heq | hmem
      · rw [heq]
        exact List.mem_cons_self
      · exact List.mem_cons_of_mem first (List.mem_cons_of_mem next hmem)

/-- What is good is kept, and the thing `u` takes the place of what is not. -/
theorem scan_rule (hu : Good u) (hmem : Good first ∨ u ∈ rest)
    (hstays : ∀ best, Good best → ∀ next ∈ rest, better best next = false)
    (hmeets : ∀ best ∈ first :: rest, better best u = false → Good best) :
    Good (scan better first rest) := by
  induction rest generalizing first with
  | nil => exact hmem.resolve_right List.not_mem_nil
  | cons next rest ih =>
    have hrest : ∀ best, Good best → ∀ x ∈ rest, better best x = false :=
      fun best hbest x hx => hstays best hbest x (List.mem_cons_of_mem next hx)
    rw [scan_cons]
    refine ih ?_ hrest fun best hbest => hmeets best ?_
    · by_cases hfirst : Good first
      · rw [hstays first hfirst next List.mem_cons_self]
        exact .inl hfirst
      · rcases List.mem_cons.mp (hmem.resolve_left hfirst) with rfl | hu'
        · -- here `u` comes next
          have hbetter : better first u = true := by
            by_contra hnot
            exact hfirst (hmeets first List.mem_cons_self ((Bool.not_eq_true _).mp hnot))
          rw [hbetter]
          exact .inl hu
        · exact .inr hu'
    · rcases List.mem_cons.mp hbest with rfl | hbest
      · split
        · exact List.mem_cons_of_mem first List.mem_cons_self
        · exact List.mem_cons_self
      · exact List.mem_cons_of_mem first (List.mem_cons_of_mem next hbest)

/-- What is kept of a scan for something less is least. -/
theorem scan_least {T : Type*} [LinearOrder T] (value : α → T) :
    ∀ other ∈ first :: rest,
      value (scan (fun best next => value next < value best) first rest) ≤ value other := by
  induction rest generalizing first with
  | nil =>
    intro other hother
    rw [List.mem_singleton.mp hother]
    exact le_refl _
  | cons next rest ih =>
    intro other hother
    rw [scan_cons]
    by_cases hless : value next < value first
    · rw [decide_eq_true hless, if_pos rfl]
      rcases List.mem_cons.mp hother with rfl | hother
      · exact (ih next List.mem_cons_self).trans hless.le
      · exact ih other hother
    · rw [decide_eq_false hless, if_neg Bool.false_ne_true]
      rcases List.mem_cons.mp hother with rfl | hother
      · exact ih other List.mem_cons_self
      · rcases List.mem_cons.mp hother with rfl | hother
        · exact (ih first List.mem_cons_self).trans (not_lt.mp hless)
        · exact ih other (List.mem_cons_of_mem first hother)

end Scan

section Peaks

variable {α K V T : Type*} [LinearOrder K] [LinearOrder V] [LinearOrder T]
  {key : α → K} {value : α → V} {place : α → T} {a b c : α} {items : List α}

/-- `b` has a greater key than `a`, or the same key and more in one of the two values. -/
def Surpassed (key : α → K) (value : α → V) (place : α → T) (a b : α) : Prop :=
  key a < key b ∨ key a = key b ∧ (value a < value b ∨ place a < place b)

/-- Nothing has a greater key, and nothing with this key has more in one of the two values. -/
def IsPeak (key : α → K) (value : α → V) (place : α → T) (items : List α) (c : α) : Prop :=
  ∀ other ∈ items, key other ≤ key c ∧
    (key other = key c → value other ≤ value c ∧ place other ≤ place c)

/-- A flag before the key decides where it is not the same. -/
theorem surpassed_flag (flag : α → Bool) :
    Surpassed (fun x => toLex (flag x, key x)) value place a b ↔
      if flag a ≠ flag b then flag b = true else Surpassed key value place a b := by
  unfold Surpassed
  simp only [Prod.Lex.toLex_lt_toLex, toLex_inj, Prod.mk.injEq]
  cases flag a <;> cases flag b <;> simp

theorem isPeak_iff : IsPeak key value place items c ↔
    ∀ other ∈ items, ¬Surpassed key value place c other := by
  refine forall₂_congr fun other _ => ?_
  unfold Surpassed
  constructor
  · rintro ⟨hkey, hsame⟩ (hlt | ⟨heq, hmore⟩)
    · exact absurd hkey (not_le.mpr hlt)
    · obtain ⟨hvalue, hplace⟩ := hsame heq.symm
      rcases hmore with hlt | hlt
      · exact absurd hvalue (not_le.mpr hlt)
      · exact absurd hplace (not_le.mpr hlt)
  · intro hnot
    refine ⟨not_lt.mp fun hlt => hnot (.inl hlt), fun heq => ⟨?_, ?_⟩⟩
    · exact not_lt.mp fun hlt => hnot (.inr ⟨heq.symm, .inl hlt⟩)
    · exact not_lt.mp fun hlt => hnot (.inr ⟨heq.symm, .inr hlt⟩)

/-- Two peaks are the same in all. -/
theorem IsPeak.same (ha : IsPeak key value place items a) (hb : IsPeak key value place items b)
    (hmem : a ∈ items) (hmem' : b ∈ items) :
    key a = key b ∧ value a = value b ∧ place a = place b := by
  have hkey : key a = key b := le_antisymm (hb a hmem).1 (ha b hmem').1
  obtain ⟨hvalue, hplace⟩ := (hb a hmem).2 hkey
  obtain ⟨hvalue', hplace'⟩ := (ha b hmem').2 hkey.symm
  exact ⟨hkey, le_antisymm hvalue hvalue', le_antisymm hplace hplace'⟩

/-- What a peak does not surpass is a peak. -/
theorem IsPeak.of_not_surpassed (hc : IsPeak key value place items c) (hmem : a ∈ items)
    (h : ¬Surpassed key value place a c) : IsPeak key value place items a := by
  have hkey : key a = key c :=
    le_antisymm (hc a hmem).1 (not_lt.mp fun hlt => h (.inl hlt))
  have hvalue : value c ≤ value a := not_lt.mp fun hlt => h (.inr ⟨hkey, .inl hlt⟩)
  have hplace : place c ≤ place a := not_lt.mp fun hlt => h (.inr ⟨hkey, .inr hlt⟩)
  intro other hother
  obtain ⟨hle, hsame⟩ := hc other hother
  refine ⟨hkey ▸ hle, fun heq => ?_⟩
  obtain ⟨hvalue', hplace'⟩ := hsame (heq.trans hkey)
  exact ⟨hvalue'.trans hvalue, hplace'.trans hplace⟩

variable {better : α → α → Bool} {first : α} {rest : List α}
  (hbetter : ∀ a b, better a b = true ↔ Surpassed key value place a b)

include hbetter

theorem isPeak_iff_better : IsPeak key value place items c ↔
    ∀ other ∈ items, better c other = false := by
  rw [isPeak_iff]
  refine forall₂_congr fun other _ => ?_
  rw [← hbetter, Bool.not_eq_true]

/-- If there is a peak, one is kept. -/
theorem scan_isPeak (h : ∃ c ∈ first :: rest, IsPeak key value place (first :: rest) c) :
    IsPeak key value place (first :: rest) (scan better first rest) := by
  obtain ⟨c, hmem, hc⟩ := h
  refine scan_rule (u := c) hc ?_ ?_ ?_
  · rcases List.mem_cons.mp hmem with rfl | hrest
    · exact .inl hc
    · exact .inr hrest
  · intro best hbest next hnext
    exact (isPeak_iff_better hbetter).mp hbest next (List.mem_cons_of_mem first hnext)
  · intro best hbest hnot
    refine hc.of_not_surpassed hbest fun hsurpassed => ?_
    rw [(hbetter best c).mpr hsurpassed] at hnot
    exact Bool.noConfusion hnot

/-- Nothing is better than what is kept, if and only if there is a peak. -/
theorem scan_best_iff : (∀ other ∈ first :: rest, better (scan better first rest) other = false) ↔
    ∃ c ∈ first :: rest, IsPeak key value place (first :: rest) c := by
  rw [← isPeak_iff_better hbetter]
  exact ⟨fun h => ⟨_, scan_mem, h⟩, scan_isPeak hbetter⟩

/-- Where there is a peak, the order in which the things are gone over does not count. -/
theorem scan_perm {first' : α} {rest' : List α} (hperm : (first' :: rest').Perm (first :: rest))
    (h : ∃ c ∈ first :: rest, IsPeak key value place (first :: rest) c) :
    key (scan better first' rest') = key (scan better first rest) ∧
      value (scan better first' rest') = value (scan better first rest) ∧
      place (scan better first' rest') = place (scan better first rest) := by
  have hsame : ∀ c, IsPeak key value place (first' :: rest') c ↔
      IsPeak key value place (first :: rest) c :=
    fun c => forall_congr' fun other => imp_congr_left hperm.mem_iff
  have hother : IsPeak key value place (first :: rest) (scan better first' rest') := by
    rw [← hsame]
    refine scan_isPeak hbetter ?_
    obtain ⟨c, hmem, hc⟩ := h
    exact ⟨c, hperm.mem_iff.mpr hmem, (hsame c).mpr hc⟩
  exact hother.same (scan_isPeak hbetter h) (hperm.mem_iff.mp scan_mem) scan_mem

end Peaks

end Algiz.Lib
