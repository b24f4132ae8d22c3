/-
  Reading a stream item by item.

  A reader takes one item off the front of its input. If each item is read back from what is
  written for it, whatever follows, then a list of items is read back from what is written for
  all of them, with nothing left over (`readAll_flatten`).
-/
import Mathlib.Data.List.Basic

namespace Algiz.Lib

variable {α β γ : Type*}

/-- Items read one after another until nothing is left. -/
def readAll (read : List α → Option (β × List α)) : Nat → List α → Option (List β)
  | _, [] => some []
  | 0, _ :: _ => none
  | fuel + 1, a :: input =>
    (read (a :: input)).bind fun item => (readAll read fuel item.2).map (item.1 :: ·)

theorem readAll_succ {read : List α → Option (β × List α)} (fuel : Nat) {input : List α}
    (hinput : input ≠ []) :
    readAll read (fuel + 1) input =
      (read input).bind fun item => (readAll read fuel item.2).map (item.1 :: ·) := by
  cases input with
  | nil => exact absurd rfl hinput
  | cons a input => rfl

/-- What is written item by item is read back item by item. -/
theorem readAll_flatten {read : List α → Option (β × List α)} {write : γ → List α} {item : γ → β}
    {xs : List γ} (hne : ∀ x ∈ xs, write x ≠ [])
    (hread : ∀ x ∈ xs, ∀ rest, read (write x ++ rest) = some (item x, rest)) {fuel : Nat}
    (hfuel : xs.length ≤ fuel) :
    readAll read fuel (xs.map write).flatten = some (xs.map item) := by
  induction xs generalizing fuel with
  | nil => simp [readAll]
  | cons x xs ih =>
    obtain ⟨fuel, rfl⟩ : ∃ n, fuel = n + 1 := ⟨fuel - 1, by simp at hfuel; omega⟩
    have hfirst := hread x List.mem_cons_self (xs.map write).flatten
    have hrest : readAll read fuel (xs.map write).flatten = some (xs.map item) :=
      ih (fun y hy => hne y (List.mem_cons_of_mem _ hy))
        (fun y hy => hread y (List.mem_cons_of_mem _ hy)) (by simp at hfuel; omega)
    have hnonempty : write x ++ (xs.map write).flatten ≠ [] :=
      List.append_ne_nil_of_left_ne_nil (hne x List.mem_cons_self) _
    rw [List.map_cons, List.flatten_cons, readAll_succ fuel hnonempty, hfirst]
    simp [hrest]

/-- Items that are written with at least one element each take up room. -/
theorem length_le_length_flatten {write : γ → List α} {xs : List γ}
    (hne : ∀ x ∈ xs, write x ≠ []) : xs.length ≤ (xs.map write).flatten.length := by
  induction xs with
  | nil => simp
  | cons x xs ih =>
    have hpos := List.length_pos_of_ne_nil (hne x List.mem_cons_self)
    have := ih fun y hy => hne y (List.mem_cons_of_mem _ hy)
    simp only [List.map_cons, List.flatten_cons, List.length_append, List.length_cons]
    omega

end Algiz.Lib
