/-
  Blocks received as a stream.

  A list of blocks is sent as its concatenation and received a prefix at a time. `complete`
  counts the blocks of which the last element has been received; a receiver that takes no more
  than one block at a time keeps up exactly when no step completes two (`keepsUp_iff`).
-/
import Mathlib.Data.List.Basic

namespace Algiz.Lib

variable {α : Type*}

/-- How many of the blocks lie within the first `n` elements of their concatenation. -/
def complete : List (List α) → Nat → Nat
  | [], _ => 0
  | block :: blocks, n => if block.length ≤ n then complete blocks (n - block.length) + 1 else 0

theorem complete_le (blocks : List (List α)) (n : Nat) : complete blocks n ≤ blocks.length := by
  induction blocks generalizing n with
  | nil => exact Nat.le_refl 0
  | cons block blocks ih =>
    rw [complete, List.length_cons]
    have := ih (n - block.length)
    split <;> omega

/-- Blocks that have been received whole count. -/
theorem complete_append (blocks later : List (List α)) (n : Nat) :
    complete (blocks ++ later) (blocks.flatten.length + n) =
      blocks.length + complete later n := by
  induction blocks with
  | nil => simp
  | cons block blocks ih =>
    have hrest : (block :: blocks).flatten.length + n - block.length =
        blocks.flatten.length + n := by
      rw [List.flatten_cons, List.length_append]
      omega
    have hblock : block.length ≤ (block :: blocks).flatten.length + n := by
      rw [List.flatten_cons, List.length_append]
      omega
    rw [List.cons_append, complete, if_pos hblock, hrest, ih, List.length_cons]
    omega

/-- Of blocks that are not empty none is complete before anything is received. -/
theorem complete_zero {blocks : List (List α)} (h : ∀ block ∈ blocks, block ≠ []) :
    complete blocks 0 = 0 := by
  cases blocks with
  | nil => rfl
  | cons block blocks =>
    have hpos := List.length_pos_of_ne_nil (h block List.mem_cons_self)
    rw [complete, if_neg (by omega)]

/-- A receiver that takes one block at a time, if one is complete, has taken after each step
    what is complete then exactly when no step completes more than one. `taken` and `received`
    are what it has taken and received after each step. -/
theorem keepsUp_iff (blocks : List (List α)) (taken received : Nat → Nat) (steps : Nat)
    (hzero : taken 0 = complete blocks (received 0))
    (hstep : ∀ i < steps, taken (i + 1) = min (taken i + 1) (complete blocks (received (i + 1)))) :
    (∀ i ≤ steps, taken i = complete blocks (received i)) ↔
      ∀ i < steps, complete blocks (received (i + 1)) ≤ complete blocks (received i) + 1 := by
  constructor
  · intro htaken i hi
    have := hstep i hi
    have := htaken i (by omega)
    have := htaken (i + 1) (by omega)
    omega
  · intro hone i hi
    induction i with
    | zero => exact hzero
    | succ i ih =>
      have := ih (by omega)
      have := hstep i (by omega)
      have := hone i (by omega)
      omega

end Algiz.Lib
