/-
  What was used last: a list with the latest in front, and a table of times.

  In the list, a use puts a key in front, and where the list is full and does not have the key, the
  last one is dropped for it (`lruStep`). A key that was used stays as long as fewer others than
  there is room for have been used since, and it has not been dropped itself (`mem_lru_of_recent`).

  The table has the time of the last use of each key. It is ordered as the list is (`Ordered`): a
  use that is later than all others stays ordered, and the key with the least time is the last of
  the list (`Ordered.erase_least`).
-/
import Mathlib.Data.List.Dedup
import Mathlib.Data.List.DropRight
import Mathlib.Data.List.Infix
import Mathlib.Data.List.Pairwise
import Mathlib.Data.List.Perm.Subperm
import Mathlib.Order.Lattice
import Algiz.Lib.Map

namespace Algiz.Lib

section Lists

variable {K : Type*}

/-- A key is used, or it is dropped. -/
inductive Use (K : Type*) where
  | get (k : K)
  | drop (k : K)

/-- The key that is used. -/
def Use.got : Use K → Option K
  | .get k => some k
  | .drop _ => none

variable [DecidableEq K]

/-- A key is used. -/
def touch (capacity : Nat) (l : List K) (k : K) : List K :=
  if k ∈ l then k :: l.erase k
  else k :: if l.length < capacity then l else l.dropLast

/-- One step of a list of that many keys, the latest in front. -/
def lruStep (capacity : Nat) (l : List K) : Use K → List K
  | .get k => touch capacity l k
  | .drop k => l.erase k

/-- The list after all these uses. -/
def lru (capacity : Nat) (uses : List (Use K)) : List K := uses.foldl (lruStep capacity) []

/-- The key was used, and since then it has not been dropped, and fewer others than there is room
    for have been used. -/
def Recent (capacity : Nat) (uses : List (Use K)) (k : K) : Prop :=
  ∃ before after, uses = before ++ .get k :: after ∧ .drop k ∉ after ∧
    ((after.filterMap Use.got).filter (· ≠ k)).dedup.length < capacity

variable {capacity : Nat} {l : List K} {k : K} {uses : List (Use K)} {use : Use K}

@[simp] theorem lru_nil : lru capacity ([] : List (Use K)) = [] := rfl

theorem lru_concat : lru capacity (uses ++ [use]) = lruStep capacity (lru capacity uses) use := by
  unfold lru
  rw [List.foldl_append, List.foldl_cons, List.foldl_nil]

theorem nodup_touch (h : l.Nodup) : (touch capacity l k).Nodup := by
  unfold touch
  split
  · exact List.nodup_cons.mpr ⟨h.not_mem_erase, h.erase k⟩
  · rename_i hnot
    refine List.nodup_cons.mpr ?_
    split
    · exact ⟨hnot, h⟩
    · exact ⟨fun hmem => hnot (List.mem_of_mem_dropLast hmem), h.sublist (List.dropLast_sublist l)⟩

theorem length_touch (hcapacity : 1 ≤ capacity) (h : l.length ≤ capacity) :
    (touch capacity l k).length ≤ capacity := by
  unfold touch
  split
  · rename_i hmem
    have hpos := List.length_pos_of_mem hmem
    rw [List.length_cons, List.length_erase_of_mem hmem]
    omega
  · rw [List.length_cons]
    split
    · omega
    · rw [List.length_dropLast]
      omega

theorem nodup_lru (capacity : Nat) (uses : List (Use K)) : (lru capacity uses).Nodup := by
  induction uses using List.reverseRecOn with
  | nil => exact List.nodup_nil
  | append_singleton uses use ih =>
    rw [lru_concat]
    cases use with
    | get k => exact nodup_touch ih
    | drop k => exact ih.erase k

theorem length_lru (hcapacity : 1 ≤ capacity) (uses : List (Use K)) :
    (lru capacity uses).length ≤ capacity := by
  induction uses using List.reverseRecOn with
  | nil => exact Nat.zero_le _
  | append_singleton uses use ih =>
    rw [lru_concat]
    cases use with
    | get k => exact length_touch hcapacity ih
    | drop k => exact List.length_erase_le.trans ih

/-! ## What stays -/

/-- What was used of a list, but for one key. -/
def others (k : K) (uses : List (Use K)) : List K := (uses.filterMap Use.got).filter (· ≠ k)

theorem others_concat_get {j : K} (h : j ≠ k) :
    others k (uses ++ [.get j]) = others k uses ++ [j] := by
  simp [others, List.filterMap_append, Use.got, h]

theorem length_dedup_le {l l' : List K} (h : l ⊆ l') : l.dedup.length ≤ l'.dedup.length := by
  refine ((List.nodup_dedup l).subperm fun k hk => ?_).length_le
  exact List.mem_dedup.mpr (h (List.mem_dedup.mp hk))

theorem others_subset (k : K) (uses : List (Use K)) (use : Use K) :
    others k uses ⊆ others k (uses ++ [use]) := by
  intro j hj
  unfold others at hj ⊢
  rw [List.filterMap_append, List.filter_append]
  exact List.mem_append_left _ hj

/-- Another key is taken out of the list. -/
theorem erase_split {front back : List K} {j : K} (hj : j ≠ k) :
    ∃ back', (front ++ k :: back).erase j = front.erase j ++ k :: back' := by
  by_cases hmem : j ∈ front
  · exact ⟨back, List.erase_append_left _ hmem⟩
  · rw [List.erase_append_right _ hmem, List.erase_of_not_mem hmem,
      List.erase_cons_tail (by simpa using Ne.symm hj)]
    exact ⟨_, rfl⟩

/-- Another key is used. If what is in front of `k` is not too much, `k` stays. -/
theorem touch_split {front back recent : List K} {j : K} (hj : j ≠ k)
    (hnodup : (front ++ k :: back).Nodup) (hfront : front ⊆ recent) (hself : j ∈ recent)
    (hfew : recent.dedup.length < capacity) :
    ∃ front' back', touch capacity (front ++ k :: back) j = front' ++ k :: back' ∧
      front' ⊆ recent := by
  unfold touch
  split
  · obtain ⟨back', heq⟩ := erase_split hj
    rw [heq]
    refine ⟨j :: front.erase j, back', rfl, List.cons_subset.mpr ⟨hself, fun x hx => ?_⟩⟩
    exact hfront (List.mem_of_mem_erase hx)
  · rename_i hnew
    split
    · exact ⟨j :: front, back, rfl, List.cons_subset.mpr ⟨hself, hfront⟩⟩
    · rename_i hfull
      obtain rfl | hback := eq_or_ne back []
      · -- all that is in front, and `j`, are too many
        have hsubset : j :: front ⊆ recent.dedup :=
          List.cons_subset.mpr
            ⟨List.mem_dedup.mpr hself, fun x hx => List.mem_dedup.mpr (hfront hx)⟩
        have hdistinct : (j :: front).Nodup :=
          List.nodup_cons.mpr ⟨fun hmem => hnew (List.mem_append_left _ hmem),
            hnodup.of_append_left⟩
        have hmany := (hdistinct.subperm hsubset).length_le
        rw [List.length_append, List.length_singleton] at hfull
        rw [List.length_cons] at hmany
        omega
      · refine ⟨j :: front, back.dropLast, ?_, List.cons_subset.mpr ⟨hself, hfront⟩⟩
        rw [List.dropLast_append_of_ne_nil (List.cons_ne_nil k back),
          List.dropLast_cons_of_ne_nil hback]
        rfl

/-- In front of the key there are only such that were used since. -/
theorem recent_split (before : List (Use K)) {after : List (Use K)} (hdrop : .drop k ∉ after)
    (hfew : (others k after).dedup.length < capacity) :
    ∃ front back, lru capacity (before ++ .get k :: after) = front ++ k :: back ∧
      front ⊆ others k after := by
  induction after using List.reverseRecOn with
  | nil =>
    rw [lru_concat]
    unfold lruStep touch
    dsimp only
    split
    · exact ⟨[], _, rfl, List.nil_subset _⟩
    · exact ⟨[], _, rfl, List.nil_subset _⟩
  | append_singleton after use ih =>
    have hsub := others_subset k after use
    obtain ⟨front, back, hl, hfront⟩ := ih
      (fun hmem => hdrop (List.mem_append_left _ hmem))
      (lt_of_le_of_lt (length_dedup_le hsub) hfew)
    have hnodup : (front ++ k :: back).Nodup := hl ▸ nodup_lru capacity _
    rw [← List.cons_append, ← List.append_assoc, lru_concat, hl]
    cases use with
    | drop j =>
      have hj : j ≠ k := by
        rintro rfl
        exact hdrop (List.mem_append_right _ List.mem_cons_self)
      obtain ⟨back', heq⟩ := erase_split hj
      exact ⟨front.erase j, back', heq,
        fun x hx => hsub (hfront (List.mem_of_mem_erase hx))⟩
    | get j =>
      obtain rfl | hj := eq_or_ne j k
      · unfold lruStep touch
        dsimp only
        rw [if_pos (by simp)]
        exact ⟨[], _, rfl, List.nil_subset _⟩
      · have hself : j ∈ others k (after ++ [.get j]) := by
          rw [others_concat_get hj]
          exact List.mem_append_right _ List.mem_cons_self
        exact touch_split hj hnodup (fun x hx => hsub (hfront hx)) hself hfew

/-- What was used not long ago is in the list. -/
theorem mem_lru_of_recent (h : Recent capacity uses k) : k ∈ lru capacity uses := by
  obtain ⟨before, after, rfl, hdrop, hfew⟩ := h
  obtain ⟨front, back, heq, -⟩ := recent_split before hdrop hfew
  rw [heq]
  exact List.mem_append_right _ List.mem_cons_self

end Lists

/-! ## Times -/

section Times

variable {K T : Type*} [LinearOrder T]

/-- The table has the keys of the list, and a time is later the further in front its key is. -/
structure Ordered (times : Map K T) (l : List K) : Prop where
  mem : ∀ k, k ∈ l ↔ times k ≠ none
  nodup : l.Nodup
  later : l.Pairwise fun k k' => ∀ a b, times k = some a → times k' = some b → b < a

variable {times : Map K T} {l : List K} {k : K} {now a : T}

theorem ordered_nil : Ordered (fun _ => none : Map K T) [] :=
  ⟨fun k => by simp, List.nodup_nil, List.Pairwise.nil⟩

variable [DecidableEq K]

/-- A key is used, later than all that is in the table. -/
theorem Ordered.set (h : Ordered times l) (k : K) (hnow : ∀ k a, times k = some a → a < now) :
    Ordered (times.set k now) (k :: l.erase k) where
  mem k' := by
    obtain rfl | hne := eq_or_ne k' k
    · simp
    · rw [List.mem_cons, List.mem_erase_of_ne hne, h.mem, Map.set_of_ne _ hne]
      simp [hne]
  nodup := List.nodup_cons.mpr ⟨h.nodup.not_mem_erase, h.nodup.erase k⟩
  later := by
    have hother : ∀ k' ∈ l.erase k, times.set k now k' = times k' := by
      intro k' hk'
      refine Map.set_of_ne _ ?_ _
      rintro rfl
      exact h.nodup.not_mem_erase hk'
    refine List.pairwise_cons.mpr ⟨fun k' hk' a b ha hb => ?_, ?_⟩
    · rw [Map.set_self] at ha
      rw [hother k' hk'] at hb
      rw [← Option.some.inj ha]
      exact hnow k' b hb
    · refine (h.later.sublist List.erase_sublist).imp_of_mem ?_
      intro x y hx hy hlater a b ha hb
      rw [hother x hx] at ha
      rw [hother y hy] at hb
      exact hlater a b ha hb

theorem Ordered.erase (h : Ordered times l) (k : K) : Ordered (times.erase k) (l.erase k) where
  mem k' := by
    obtain rfl | hne := eq_or_ne k' k
    · simp [h.nodup.not_mem_erase]
    · rw [List.mem_erase_of_ne hne, h.mem, Map.erase_of_ne _ hne]
  nodup := h.nodup.erase k
  later := by
    refine (h.later.sublist List.erase_sublist).imp ?_
    intro x y hlater a b ha hb
    exact hlater a b (Map.erase_eq_some.mp ha).1 (Map.erase_eq_some.mp hb).1

/-- The key with the least time is the last of the list. -/
theorem Ordered.erase_least (h : Ordered times l) (hk : times k = some a)
    (hleast : ∀ k' b, times k' = some b → a ≤ b) : l.erase k = l.dropLast := by
  have hmem : k ∈ l := (h.mem k).mpr (by simp [hk])
  have hne : l ≠ [] := List.ne_nil_of_mem hmem
  have hlast : k ∉ l.dropLast := by
    intro hfront
    have hrel := h.later.rel_dropLast_getLast hfront
    obtain ⟨b, hb⟩ := Option.ne_none_iff_exists'.mp ((h.mem _).mp (List.getLast_mem hne))
    exact absurd (hleast _ b hb) (not_le.mpr (hrel a b hk hb))
  have hsplit := List.dropLast_append_getLast hne
  rw [← hsplit, List.mem_append, List.mem_singleton] at hmem
  have heq := hmem.resolve_left hlast
  calc l.erase k = (l.dropLast ++ [k]).erase k := by rw [heq, hsplit]
    _ = l.dropLast := by rw [List.erase_append_right _ hlast, List.erase_cons_head, List.append_nil]

end Times

end Algiz.Lib
