/-
  Finite maps as partial functions, with the operations of `std::map`.

  Two maps are `Inverse` when each is the other read backwards. Entering a fresh pair in both and
  erasing a pair from both keep them so; these two rules are all that a program needs that keeps
  such a pair of maps.
-/
import Mathlib.Data.List.Basic
import Mathlib.Logic.Function.Basic

namespace Algiz.Lib

/-- A map from `K` to `V`. -/
abbrev Map (K V : Type*) := K → Option V

namespace Map

variable {K V : Type*} [DecidableEq K]

/-- `m[k] = v` -/
def set (m : Map K V) (k : K) (v : V) : Map K V := Function.update m k (some v)

/-- `m.erase(k)` -/
def erase (m : Map K V) (k : K) : Map K V := Function.update m k none

/-- `m.emplace(k, v)`: an entry that is there stays. -/
def emplace (m : Map K V) (k : K) (v : V) : Map K V := if (m k).isSome then m else m.set k v

@[simp] theorem set_self (m : Map K V) (k : K) (v : V) : m.set k v k = some v :=
  Function.update_self ..

@[simp] theorem set_of_ne (m : Map K V) {k k' : K} (h : k' ≠ k) (v : V) : m.set k v k' = m k' :=
  Function.update_of_ne h ..

@[simp] theorem erase_self (m : Map K V) (k : K) : m.erase k k = none :=
  Function.update_self ..

@[simp] theorem erase_of_ne (m : Map K V) {k k' : K} (h : k' ≠ k) : m.erase k k' = m k' :=
  Function.update_of_ne h ..

/-- Storing what is there already. -/
theorem set_of_eq {m : Map K V} {k : K} {v : V} (h : m k = some v) : m.set k v = m := by
  unfold set
  rw [← h]
  exact Function.update_eq_self k m

/-- What was stored is erased again. -/
theorem erase_set (m : Map K V) (k : K) (v : V) : (m.set k v).erase k = m.erase k := by
  unfold erase set
  exact Function.update_idem ..

theorem set_eq_some {m : Map K V} {k k' : K} {v v' : V} (h : m k = none) :
    m.set k v k' = some v' ↔ m k' = some v' ∨ (k' = k ∧ v' = v) := by
  obtain rfl | hne := eq_or_ne k' k
  · rw [set_self, h]
    simp [eq_comm]
  · rw [set_of_ne m hne]
    simp [hne]

theorem erase_eq_some {m : Map K V} {k k' : K} {v : V} :
    m.erase k k' = some v ↔ m k' = some v ∧ k' ≠ k := by
  obtain rfl | hne := eq_or_ne k' k
  · simp
  · simp [hne]

theorem emplace_of_none {m : Map K V} {k : K} (h : m k = none) (v : V) :
    m.emplace k v = m.set k v := by
  unfold emplace
  rw [h]
  rfl

end Map

/-! ## Inverse maps -/

section Inverse

variable {K V : Type*}

/-- Each map is the other read backwards. -/
def Inverse (f : Map K V) (g : Map V K) : Prop := ∀ k v, f k = some v ↔ g v = some k

namespace Inverse

variable {f : Map K V} {g : Map V K}

theorem symm (h : Inverse f g) : Inverse g f := fun v k => (h k v).symm

theorem injective (h : Inverse f g) {k k' : K} {v : V} (hk : f k = some v) (hk' : f k' = some v) :
    k = k' := by
  rw [h] at hk hk'
  rw [hk] at hk'
  exact Option.some.inj hk'

/-- A value that is no key of `g` is no value of `f`. -/
theorem ne_of_none (h : Inverse f g) {v : V} (hv : g v = none) (k : K) : f k ≠ some v := by
  intro hk
  rw [h, hv] at hk
  exact nomatch hk

variable [DecidableEq K] [DecidableEq V]

/-- A fresh pair entered in both. -/
theorem set (h : Inverse f g) {k : K} {v : V} (hk : f k = none) (hv : g v = none) :
    Inverse (Map.set f k v) (Map.set g v k) := by
  intro k' v'
  by_cases hk' : k' = k
  · subst hk'
    by_cases hv' : v' = v
    · subst hv'
      simp
    · rw [Map.set_self, Map.set_of_ne g hv']
      have hne := h.symm.ne_of_none hk v'
      constructor
      · intro heq
        exact absurd (Option.some.inj heq).symm hv'
      · intro heq
        exact absurd heq hne
  · rw [Map.set_of_ne f hk']
    by_cases hv' : v' = v
    · subst hv'
      rw [Map.set_self]
      have hne := h.ne_of_none hv k'
      constructor
      · intro heq
        exact absurd heq hne
      · intro heq
        exact absurd (Option.some.inj heq).symm hk'
    · rw [Map.set_of_ne g hv']
      exact h k' v'

/-- A pair erased from both. -/
theorem erase (h : Inverse f g) {k : K} {v : V} (hk : f k = some v) :
    Inverse (Map.erase f k) (Map.erase g v) := by
  intro k' v'
  by_cases hk' : k' = k
  · subst hk'
    rw [Map.erase_self]
    by_cases hv' : v' = v
    · subst hv'
      simp
    · rw [Map.erase_of_ne g hv']
      constructor
      · intro heq
        exact nomatch heq
      · intro heq
        rw [← h, hk] at heq
        exact absurd (Option.some.inj heq).symm hv'
  · rw [Map.erase_of_ne f hk']
    by_cases hv' : v' = v
    · subst hv'
      rw [Map.erase_self]
      constructor
      · intro heq
        exact absurd (h.injective heq hk) hk'
      · intro heq
        exact nomatch heq
    · rw [Map.erase_of_ne g hv']
      exact h k' v'

end Inverse

end Inverse

end Algiz.Lib
