/-
  Programs that do things one after another and may stop in between.

  A `Trace` is what a program did, in order, and how it ended: with a value, or stopped. Programs
  are put together by `>>=`; what was done before a stop stays done. `All` is the rule for what is
  done: a property of every event.
-/
import Mathlib.Data.List.Count

namespace Algiz.Lib

/-- A value of two parts in sequence comes through both. -/
theorem except_bind_eq_ok {ε α β : Type} {x : Except ε α} {f : α → Except ε β} {b : β} :
    x >>= f = .ok b ↔ ∃ a, x = .ok a ∧ f a = .ok b := by
  cases x with
  | error e =>
    refine iff_of_false (fun h => nomatch h) ?_
    rintro ⟨a, h, -⟩
    exact nomatch h
  | ok a =>
    constructor
    · intro h
      exact ⟨a, rfl, h⟩
    · rintro ⟨a', ha, h⟩
      rwa [Except.ok.inj ha]

/-- What was done, and the value or what the program was stopped by. -/
structure Trace (E X α : Type) where
  events : List E
  result : Except X α

namespace Trace

variable {E X α β : Type}

/-- Doing nothing. -/
protected def pure (a : α) : Trace E X α := ⟨[], .ok a⟩

/-- One program behind another. -/
protected def bind (x : Trace E X α) (f : α → Trace E X β) : Trace E X β :=
  match x.result with
  | .error e => ⟨x.events, .error e⟩
  | .ok a => ⟨x.events ++ (f a).events, (f a).result⟩

instance : Monad (Trace E X) where
  pure := Trace.pure
  bind := Trace.bind

/-- Doing something. -/
def emit (event : E) : Trace E X Unit := ⟨[event], .ok ()⟩

/-- Doing several things. -/
def emitAll (events : List E) : Trace E X Unit := ⟨events, .ok ()⟩

/-- A value, or a stop. -/
def lift (result : Except X α) : Trace E X α := ⟨[], result⟩

/-- What is done if the program is stopped by something that can be handled. -/
def handle (x : Trace E X α) (handler : X → Option (Trace E X α)) : Trace E X α :=
  match x.result with
  | .ok _ => x
  | .error e =>
    match handler e with
    | none => x
    | some y => ⟨x.events ++ y.events, y.result⟩

/-! ## What programs do -/

section Events

variable {x : Trace E X α} {f : α → Trace E X β}

@[simp] theorem pure_events (a : α) : (pure a : Trace E X α).events = [] := rfl

@[simp] theorem pure_result (a : α) : (pure a : Trace E X α).result = .ok a := rfl

@[simp] theorem emit_events (event : E) : (emit event : Trace E X Unit).events = [event] := rfl

@[simp] theorem emitAll_events (events : List E) :
    (emitAll events : Trace E X Unit).events = events := rfl

@[simp] theorem lift_events (result : Except X α) : (lift result : Trace E X α).events = [] := rfl

@[simp] theorem lift_result (result : Except X α) :
    (lift result : Trace E X α).result = result := rfl

theorem bind_of_ok {a : α} (h : x.result = .ok a) :
    x >>= f = ⟨x.events ++ (f a).events, (f a).result⟩ := by
  show Trace.bind x f = _
  unfold Trace.bind
  rw [h]

theorem bind_of_error {e : X} (h : x.result = .error e) :
    x >>= f = ⟨x.events, .error e⟩ := by
  show Trace.bind x f = _
  unfold Trace.bind
  rw [h]

@[simp] theorem pure_bind (a : α) (f : α → Trace E X β) : (pure a : Trace E X α) >>= f = f a := rfl

theorem bind_assoc {γ : Type} (x : Trace E X α) (f : α → Trace E X β) (g : β → Trace E X γ) :
    x >>= f >>= g = x >>= fun a => f a >>= g := by
  cases hx : x.result with
  | error e => rw [bind_of_error hx, bind_of_error hx, bind_of_error rfl]
  | ok a =>
    rw [bind_of_ok hx, bind_of_ok hx]
    cases hf : (f a).result with
    | error e => rw [bind_of_error hf, bind_of_error rfl]
    | ok b => rw [bind_of_ok hf, bind_of_ok rfl, List.append_assoc]

/-- What follows counts for the values that the first part ends with. -/
theorem bind_congr {g : α → Trace E X β} (h : ∀ a, x.result = .ok a → f a = g a) :
    x >>= f = x >>= g := by
  cases hx : x.result with
  | error e => rw [bind_of_error hx, bind_of_error hx]
  | ok a => rw [bind_of_ok hx, bind_of_ok hx, h a hx]

/-- A program that ends with a value ran both parts. -/
theorem bind_eq_ok {b : β} : (x >>= f).result = .ok b ↔
    ∃ a, x.result = .ok a ∧ (f a).result = .ok b := by
  cases hx : x.result with
  | error e =>
    rw [bind_of_error hx]
    simp
  | ok a =>
    rw [bind_of_ok hx]
    simp

/-- What is done in one program behind another is done in one of them. -/
theorem mem_bind {event : E} : event ∈ (x >>= f).events ↔
    event ∈ x.events ∨ ∃ a, x.result = .ok a ∧ event ∈ (f a).events := by
  cases hx : x.result with
  | error e =>
    rw [bind_of_error hx]
    simp
  | ok a =>
    rw [bind_of_ok hx]
    simp

/-- A value comes from the program, or from the handler of what it is stopped by. -/
theorem handle_eq_ok {handler : X → Option (Trace E X α)} {a : α} :
    (x.handle handler).result = .ok a ↔ x.result = .ok a ∨
      ∃ e y, x.result = .error e ∧ handler e = some y ∧ y.result = .ok a := by
  unfold handle
  cases hx : x.result with
  | ok b => simp [hx]
  | error e =>
    cases hy : handler e with
    | none => simp [hx, hy]
    | some y => simp [hy]

/-- What was done before a stop stays done. -/
theorem mem_handle {event : E} {handler : X → Option (Trace E X α)} (h : event ∈ x.events) :
    event ∈ (x.handle handler).events := by
  unfold handle
  split
  · exact h
  · split
    · exact h
    · exact List.mem_append_left _ h

end Events

/-! ## A property of every event -/

section All

variable {P : E → Prop} {x : Trace E X α} {f : α → Trace E X β}

/-- Has everything that is done the property? -/
def All (P : E → Prop) (x : Trace E X α) : Prop := ∀ event ∈ x.events, P event

theorem All.pure (a : α) : (Pure.pure a : Trace E X α).All P := fun _ h => absurd h List.not_mem_nil

theorem All.lift (result : Except X α) : (Trace.lift result : Trace E X α).All P :=
  fun _ h => absurd h List.not_mem_nil

theorem All.emit {event : E} (h : P event) : (Trace.emit event : Trace E X Unit).All P :=
  fun _ hmem => List.mem_singleton.mp hmem ▸ h

theorem All.emitAll {events : List E} (h : ∀ event ∈ events, P event) :
    (Trace.emitAll events : Trace E X Unit).All P := h

/-- The second part counts for the values that the first ends with. -/
theorem All.bind (hx : x.All P) (hf : ∀ a, x.result = .ok a → (f a).All P) : (x >>= f).All P := by
  intro event hevent
  rcases mem_bind.mp hevent with hevent | ⟨a, ha, hevent⟩
  · exact hx event hevent
  · exact hf a ha event hevent

theorem All.handle {handler : X → Option (Trace E X α)} (hx : x.All P)
    (hhandler : ∀ e y, handler e = some y → y.All P) : (x.handle handler).All P := by
  unfold Trace.handle
  split
  · exact hx
  · split
    · exact hx
    · rename_i e _ _ y hy
      intro event hevent
      rcases List.mem_append.mp hevent with hevent | hevent
      · exact hx event hevent
      · exact hhandler e y hy event hevent

end All

/-- How much of what is done is of the kind? -/
def count (p : E → Bool) (x : Trace E X α) : Nat := x.events.countP p

end Trace

end Algiz.Lib
