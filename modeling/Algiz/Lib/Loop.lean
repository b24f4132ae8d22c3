/-
  Loops that may run on.

  The body of a loop takes a state to the next one, or to what the loop gives. `Loop body s b`
  says that the loop ends from `s` and gives `b`; of a loop that runs on it says nothing. What a
  loop gives is determined (`Loop.unique`). A function that goes through the turns with fuel gives
  it, if every turn lowers a measure that is less than the fuel (`Loop.of_fuel`).
-/
import Mathlib.Tactic.TypeStar

namespace Algiz.Lib

/-- The loop ends from a state, with a value. -/
inductive Loop {σ β : Type*} (body : σ → σ ⊕ β) : σ → β → Prop
  /-- the last turn -/
  | leave {s : σ} {b : β} (h : body s = .inr b) : Loop body s b
  /-- one turn, and those behind it -/
  | again {s t : σ} {b : β} (h : body s = .inl t) (hrest : Loop body t b) : Loop body s b

namespace Loop

variable {σ β : Type*} {body : σ → σ ⊕ β} {s : σ}

theorem unique {b b' : β} (h : Loop body s b) (h' : Loop body s b') : b = b' := by
  induction h with
  | leave hleave =>
    cases h' with
    | leave hleave' => exact Sum.inr.inj (hleave.symm.trans hleave')
    | again hagain _ => exact nomatch hleave.symm.trans hagain
  | again hagain _ ih =>
    cases h' with
    | leave hleave => exact nomatch hagain.symm.trans hleave
    | again hagain' hrest' =>
      obtain rfl := Sum.inl.inj (hagain.symm.trans hagain')
      exact ih hrest'

/-- What a function with enough fuel gives is what the loop gives. -/
theorem of_fuel {f : Nat → σ → β} (Inv : σ → Prop) (measure : σ → Nat)
    (hleave : ∀ fuel s b, Inv s → body s = .inr b → f (fuel + 1) s = b)
    (hagain : ∀ fuel s t, Inv s → body s = .inl t → f (fuel + 1) s = f fuel t)
    (hless : ∀ s t, Inv s → body s = .inl t → Inv t ∧ measure t < measure s) {fuel : Nat}
    (hs : Inv s) (hfuel : measure s < fuel) : Loop body s (f fuel s) := by
  induction fuel generalizing s with
  | zero => exact absurd hfuel (Nat.not_lt_zero _)
  | succ fuel ih =>
    cases hbody : body s with
    | inr b =>
      rw [hleave fuel s b hs hbody]
      exact .leave hbody
    | inl t =>
      obtain ⟨ht, hlt⟩ := hless s t hs hbody
      rw [hagain fuel s t hs hbody]
      exact .again hbody (ih ht (Nat.lt_of_lt_of_le hlt (Nat.le_of_lt_succ hfuel)))

end Loop

end Algiz.Lib
