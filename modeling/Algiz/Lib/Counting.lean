/-
  Counting along a list without repetitions when the predicate changes at one element.
-/
import Mathlib.Data.List.Nodup
import Mathlib.Data.List.Count

namespace Algiz.Lib

variable {α : Type*}

theorem countP_congr_of_mem {l : List α} {p q : α → Bool} (h : ∀ x ∈ l, p x = q x) :
    l.countP p = l.countP q :=
  List.countP_congr fun x hx => by rw [h x hx]

/-- Only the element where the predicates differ counts differently. -/
theorem countP_update {l : List α} (hl : l.Nodup) {a : α} (ha : a ∈ l) {p q : α → Bool}
    (h : ∀ x ∈ l, x ≠ a → p x = q x) :
    l.countP p + (q a).toNat = l.countP q + (p a).toNat := by
  induction l with
  | nil => exact absurd ha List.not_mem_nil
  | cons x l ih =>
    obtain ⟨hx, hl⟩ := List.nodup_cons.mp hl
    have hcons : ∀ r : α → Bool, (x :: l).countP r = l.countP r + (r x).toNat := by
      intro r
      rw [List.countP_cons]
      cases r x <;> rfl
    rw [hcons, hcons]
    by_cases hxa : x = a
    · subst hxa
      have hsame : l.countP p = l.countP q := countP_congr_of_mem fun y hy =>
        h y (List.mem_cons_of_mem x hy) fun hyx => hx (hyx ▸ hy)
      omega
    · have hmem : a ∈ l := (List.mem_cons.mp ha).resolve_left (Ne.symm hxa)
      have hrest := ih hl hmem fun y hy => h y (List.mem_cons_of_mem x hy)
      have hhead := h x List.mem_cons_self hxa
      rw [hhead]
      omega

end Algiz.Lib
