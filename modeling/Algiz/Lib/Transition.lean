/-
  Systems that take one event after another.

  `step s e` is `none` where the event cannot happen. `Reachable` states are those that some list
  of events leads to, and an invariant that every step keeps holds of them
  (`Reachable.invariant`). `AllStates` and `AllSteps` speak of one run: a property of every state
  on it, a condition on every step of it. Where the condition is exactly what it takes for one
  step to keep the property, it is exactly what it takes for the whole run (`allStates_iff`).
-/
import Mathlib.Data.List.Basic

namespace Algiz.Lib

section Transition

variable {State Event : Type*} (step : State → Event → Option State)

/-- The state after these events. -/
def exec (s : State) : List Event → Option State
  | [] => some s
  | e :: es => (step s e).bind fun t => exec t es

/-- Some list of events leads from `init` to `s`. -/
def Reachable (init s : State) : Prop := ∃ es, exec step init es = some s

/-- The property holds in every state of the run. -/
def AllStates (P : State → Prop) : State → List Event → Prop
  | s, [] => P s
  | s, e :: es => P s ∧ ∀ t, step s e = some t → AllStates P t es

/-- The condition holds of every step of the run. -/
def AllSteps (C : State → Event → Prop) : State → List Event → Prop
  | _, [] => True
  | s, e :: es => ∀ t, step s e = some t → C s e ∧ AllSteps C t es

variable {step}

theorem exec_cons {s t : State} {e : Event} {es : List Event} (h : exec step s (e :: es) = some t) :
    ∃ u, step s e = some u ∧ exec step u es = some t := by
  rw [exec] at h
  exact Option.bind_eq_some_iff.mp h

theorem exec_append {s t u : State} {es es' : List Event} (h : exec step s es = some t)
    (h' : exec step t es' = some u) : exec step s (es ++ es') = some u := by
  induction es generalizing s with
  | nil =>
    rw [exec, Option.some_inj] at h
    rwa [List.nil_append, h]
  | cons e es ih =>
    obtain ⟨v, hv, hrest⟩ := exec_cons h
    rw [List.cons_append, exec, hv]
    exact ih hrest

theorem exec_invariant {Inv : State → Prop}
    (hstep : ∀ s e t, Inv s → step s e = some t → Inv t) {s t : State} {es : List Event}
    (hs : Inv s) (hexec : exec step s es = some t) : Inv t := by
  induction es generalizing s with
  | nil =>
    rw [exec, Option.some_inj] at hexec
    rwa [← hexec]
  | cons e es ih =>
    obtain ⟨u, hu, hrest⟩ := exec_cons hexec
    exact ih (hstep s e u hs hu) hrest

/-- An invariant holds of every reachable state. -/
theorem Reachable.invariant {Inv : State → Prop}
    (hstep : ∀ s e t, Inv s → step s e = some t → Inv t) {init s : State} (hinit : Inv init)
    (hreach : Reachable step init s) : Inv s := by
  obtain ⟨es, hexec⟩ := hreach
  exact exec_invariant hstep hinit hexec

theorem AllStates.head {P : State → Prop} {s : State} {es : List Event}
    (h : AllStates step P s es) : P s := by
  cases es with
  | nil => exact h
  | cons e es => exact h.1

/-- What holds in every state of a run holds in its last one. -/
theorem AllStates.exec {P : State → Prop} {s t : State} {es : List Event}
    (h : AllStates step P s es) (hexec : exec step s es = some t) : P t := by
  induction es generalizing s with
  | nil =>
    rw [Lib.exec, Option.some_inj] at hexec
    rwa [← hexec]
  | cons e es ih =>
    obtain ⟨u, hu, hrest⟩ := exec_cons hexec
    exact ih (h.2 u hu) hrest

/-- If a step keeps the property exactly when it meets the condition, then every state of a run
    has the property exactly when every step of it meets the condition. `Inv` may be kept only
    as long as the property is. -/
theorem allStates_iff {Inv P : State → Prop} {C : State → Event → Prop}
    (hinv : ∀ s e t, Inv s → P s → step s e = some t → P t → Inv t)
    (hstep : ∀ s e t, Inv s → P s → step s e = some t → (P t ↔ C s e))
    {s : State} (es : List Event) (hi : Inv s) (hp : P s) :
    AllStates step P s es ↔ AllSteps step C s es := by
  induction es generalizing s with
  | nil => exact iff_of_true hp trivial
  | cons e es ih =>
    rw [AllStates, AllSteps]
    constructor
    · intro hall t ht
      have hpt := (hall.2 t ht).head
      exact ⟨(hstep s e t hi hp ht).mp hpt, (ih (hinv s e t hi hp ht hpt) hpt).mp (hall.2 t ht)⟩
    · intro hall
      refine ⟨hp, fun t ht => ?_⟩
      obtain ⟨hc, hrest⟩ := hall t ht
      have hpt := (hstep s e t hi hp ht).mpr hc
      exact (ih (hinv s e t hi hp ht hpt) hpt).mpr hrest

/-- If a step that meets the condition keeps the invariant, then the invariant, and what follows
    from it, holds in every state of a run whose steps all meet the condition. -/
theorem AllStates.of_allSteps {Inv P : State → Prop} {C : State → Event → Prop}
    (hstep : ∀ s e t, Inv s → C s e → step s e = some t → Inv t) (hp : ∀ s, Inv s → P s)
    {s : State} {es : List Event} (hi : Inv s) (hall : AllSteps step C s es) :
    AllStates step P s es := by
  induction es generalizing s with
  | nil => exact hp s hi
  | cons e es ih =>
    refine ⟨hp s hi, fun t ht => ?_⟩
    obtain ⟨hc, hrest⟩ := hall t ht
    exact ih (hstep s e t hi hc ht) hrest

/-- A condition that the invariant implies of a step holds of every step of every run. -/
theorem AllSteps.of_invariant {Inv : State → Prop} {C : State → Event → Prop}
    (hstep : ∀ s e t, Inv s → step s e = some t → Inv t) (hc : ∀ s e, Inv s → C s e)
    {s : State} (es : List Event) (hi : Inv s) : AllSteps step C s es := by
  induction es generalizing s with
  | nil => trivial
  | cons e es ih => exact fun t ht => ⟨hc s e hi, ih (hstep s e t hi ht)⟩

/-- What the invariant implies holds in every state of every run. -/
theorem AllStates.of_invariant {Inv P : State → Prop}
    (hstep : ∀ s e t, Inv s → step s e = some t → Inv t) (hp : ∀ s, Inv s → P s) {s : State}
    (es : List Event) (hi : Inv s) : AllStates step P s es :=
  .of_allSteps (fun s e t hi _ => hstep s e t hi) hp hi
    (AllSteps.of_invariant (C := fun _ _ => True) hstep (fun _ _ _ => trivial) es hi)

end Transition

end Algiz.Lib
