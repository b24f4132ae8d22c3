/-
  What a sort may leave of a list, and comparisons of one key with another.

  A sort that need not be stable leaves a permutation in which nothing stands behind an element
  that is not to be before it. If the comparison is a strict weak order, two elements that it does
  not tell apart may be left in either order (`exists_isSort`). A comparison of a key of the left
  element with another key of the right one is such an order, and sorts by the first key, exactly
  if on these elements it comes to the comparison of the first keys (`sortsBy_crossed_iff`).
-/
import Mathlib.Data.List.Sort
import Mathlib.Order.RelClasses

namespace Algiz.Lib

variable {α κ : Type*}

/-- A sort may leave this of the list. -/
structure IsSort (lt : α → α → Prop) (l sorted : List α) : Prop where
  perm : sorted.Perm l
  pairwise : sorted.Pairwise fun a b => ¬ lt b a

/-- The comparison is a strict weak order on the elements, and whatever a sort leaves is in order
    of the key. -/
structure SortsBy [LE κ] (lt : α → α → Prop) (key : α → κ) (l : List α) : Prop where
  order : IsStrictWeakOrder {a // a ∈ l} fun a b => lt a b
  sorted : ∀ sorted, IsSort lt l sorted → sorted.Pairwise fun a b => key a ≤ key b

section Sorts

variable (lt : α → α → Prop) {l : List α}

/-- Not to be behind is transitive. -/
theorem not_lt_trans [IsStrictWeakOrder α lt] {a b c : α} (hab : ¬ lt b a) (hbc : ¬ lt c b) :
    ¬ lt c a := by
  intro hca
  by_cases hlt : lt a b
  · exact hbc (IsTrans.trans _ _ _ hca hlt)
  · by_cases hlt' : lt b c
    · exact hab (IsTrans.trans _ _ _ hlt' hca)
    · exact (IsStrictWeakOrder.incomp_trans a b c ⟨hlt, hab⟩ ⟨hlt', hbc⟩).2 hca

/-- One of two elements is not to be behind the other. -/
theorem not_lt_total [IsStrictOrder α lt] (a b : α) : ¬ lt b a ∨ ¬ lt a b := by
  by_contra hboth
  rw [not_or, not_not, not_not] at hboth
  exact Std.Irrefl.irrefl a (IsTrans.trans _ _ _ hboth.2 hboth.1)

/-- An element that is not to be behind another may be left in front of it. -/
theorem exists_isSort (horder : IsStrictWeakOrder {a // a ∈ l} fun a b => lt a b) {a b : α}
    (ha : a ∈ l) (hb : b ∈ l) (hne : a ≠ b) (hnot : ¬ lt b a) :
    ∃ sorted, IsSort lt l sorted ∧ [a, b].Sublist sorted := by
  classical
  let le (x y : {a // a ∈ l}) : Bool := decide (¬ lt y x)
  have htrans : ∀ x y z, le x y = true → le y z = true → le x z = true := by
    intro x y z hxy hyz
    exact decide_eq_true (not_lt_trans (fun a b : {a // a ∈ l} => lt a b)
      (of_decide_eq_true hxy) (of_decide_eq_true hyz))
  have htotal : ∀ x y, (le x y || le y x) = true := by
    intro x y
    rw [Bool.or_eq_true, decide_eq_true_iff, decide_eq_true_iff]
    exact not_lt_total (fun a b : {a // a ∈ l} => lt a b) x y
  -- a stable sort of the list with these two in front
  have hbehind : (⟨b, hb⟩ : {a // a ∈ l}) ∈ l.attach.erase ⟨a, ha⟩ :=
    (List.mem_erase_of_ne fun heq => hne (congrArg Subtype.val heq).symm).mpr (List.mem_attach ..)
  have hfront : (⟨a, ha⟩ :: ⟨b, hb⟩ :: (l.attach.erase ⟨a, ha⟩).erase ⟨b, hb⟩).Perm l.attach :=
    ((List.perm_cons_erase hbehind).symm.cons _).trans
      (List.perm_cons_erase (List.mem_attach ..)).symm
  generalize (l.attach.erase ⟨a, ha⟩).erase ⟨b, hb⟩ = rest at hfront
  refine ⟨((⟨a, ha⟩ :: ⟨b, hb⟩ :: rest).mergeSort le).map Subtype.val, ⟨?_, ?_⟩, ?_⟩
  · have hperm := ((List.mergeSort_perm _ le).trans hfront).map Subtype.val
    rwa [List.attach_map_subtype_val] at hperm
  · rw [List.pairwise_map]
    exact (List.pairwise_mergeSort htrans htotal _).imp of_decide_eq_true
  · have hpair : [⟨a, ha⟩, ⟨b, hb⟩].Sublist (⟨a, ha⟩ :: ⟨b, hb⟩ :: rest) :=
      ((List.nil_sublist rest).cons_cons _).cons_cons _
    exact (List.pair_sublist_mergeSort htrans htotal (decide_eq_true hnot) hpair).map Subtype.val

end Sorts

/-! ## Comparing two keys -/

section Crossed

variable [LinearOrder κ] {f g : α → κ} {l : List α}

/-- A comparison of one key with another does what the comparison of the first keys does, exactly
    if no second key is greater than the first one, or at most a first key that is less. -/
theorem sortsBy_crossed_iff : SortsBy (fun a b => f a < g b) f l ↔
    (∀ a ∈ l, g a ≤ f a) ∧ ∀ a ∈ l, ∀ b ∈ l, f a < f b → f a < g b := by
  constructor
  · intro h
    have hle : ∀ a ∈ l, g a ≤ f a := by
      intro a ha
      exact not_lt.mp (h.order.irrefl ⟨a, ha⟩)
    refine ⟨hle, fun a ha b hb hab => ?_⟩
    by_contra hnot
    -- the greater one may be left in front
    have hne : b ≠ a := fun heq => lt_irrefl _ (heq ▸ hab)
    obtain ⟨sorted, hsorted, hpair⟩ :=
      exists_isSort (fun a b => f a < g b) h.order hb ha hne hnot
    have hba := (h.sorted sorted hsorted).sublist hpair
    exact not_lt.mpr (List.rel_of_pairwise_cons hba List.mem_cons_self) hab
  · rintro ⟨hle, hlt⟩
    have hiff : ∀ a ∈ l, ∀ b ∈ l, (f a < g b ↔ f a < f b) := fun a ha b hb =>
      ⟨fun h => lt_of_lt_of_le h (hle b hb), hlt a ha b hb⟩
    refine ⟨?_, fun sorted hsorted => ?_⟩
    · have hsame : (fun a b : {a // a ∈ l} => f a < g b) =
          fun a b : {a // a ∈ l} => f a < f b := by
        funext a b
        exact propext (hiff a a.2 b b.2)
      have hweak : IsStrictWeakOrder κ fun x y => x < y := isStrictWeakOrder_of_isOrderConnected
      rw [hsame]
      exact inferInstanceAs (IsStrictWeakOrder _
        (Order.Preimage (fun a : {a // a ∈ l} => f a) fun x y => x < y))
    · refine hsorted.pairwise.imp_of_mem fun {a b} ha hb hnot => ?_
      have ha := hsorted.perm.subset ha
      have hb := hsorted.perm.subset hb
      exact not_lt.mp fun hba => hnot ((hiff b hb a ha).mpr hba)

end Crossed

end Algiz.Lib
