/-
  Programs that throw, and do not take back what they did.

  A program is an `EStateM`: when it throws, the state stays as it is then, and whoever catches
  goes on from there. `EndsIn` says how a program ends from a state, with a condition for values and
  one for exceptions; its rules follow the ways in which programs are put together.
-/
import Mathlib.Tactic.TypeStar

namespace Algiz.Lib

variable {ε σ α β : Type}

/-- From this state the program ends with a value and a state of the first kind, or with an
    exception and a state of the second. -/
def EndsIn (x : EStateM ε σ α) (s : σ) (Q : α → σ → Prop) (E : ε → σ → Prop) : Prop :=
  match x s with
  | .ok a t => Q a t
  | .error e t => E e t

namespace EndsIn

variable {x : EStateM ε σ α} {s t : σ} {Q : α → σ → Prop} {E : ε → σ → Prop}

theorem of_ok {a : α} (h : EndsIn x s Q E) (hx : x s = .ok a t) : Q a t := by
  unfold EndsIn at h
  rwa [hx] at h

theorem pure {a : α} (h : Q a s) : EndsIn (Pure.pure a : EStateM ε σ α) s Q E := h

theorem throw {e : ε} (h : E e s) : EndsIn (MonadExcept.throw e : EStateM ε σ α) s Q E := h

theorem modify {Q : Unit → σ → Prop} {f : σ → σ} (h : Q () (f s)) :
    EndsIn (modify f : EStateM ε σ Unit) s Q E := h

theorem get {Q : σ → σ → Prop} (h : Q s s) : EndsIn (get : EStateM ε σ σ) s Q E := h

theorem lift {result : Except ε α} (hok : ∀ a, result = .ok a → Q a s)
    (herror : ∀ e, result = .error e → E e s) : EndsIn (liftExcept result) s Q E := by
  cases result with
  | ok a => exact hok a rfl
  | error e => exact herror e rfl

/-- One program behind another: an exception of the first is one of both. -/
theorem bind {R : β → σ → Prop} {f : α → EStateM ε σ β}
    (hx : EndsIn x s (fun a t => EndsIn (f a) t R E) E) : EndsIn (x >>= f) s R E := by
  unfold EndsIn at hx
  show EndsIn (EStateM.bind x f) s R E
  unfold EndsIn EStateM.bind
  cases hrun : x s with
  | ok a t =>
    rw [hrun] at hx
    exact hx
  | error e t =>
    rw [hrun] at hx
    exact hx

/-- What is caught is handled in the state in which it was thrown. -/
theorem tryCatch {handler : ε → EStateM ε σ α}
    (hx : EndsIn x s Q fun e t => EndsIn (handler e) t Q E) :
    EndsIn (MonadExcept.tryCatch x handler) s Q E := by
  unfold EndsIn at hx
  show EndsIn (EStateM.tryCatch x handler) s Q E
  unfold EndsIn EStateM.tryCatch
  cases hrun : x s with
  | ok a t =>
    rw [hrun] at hx
    exact hx
  | error e t =>
    rw [hrun] at hx
    exact hx

theorem mono {Q' : α → σ → Prop} {E' : ε → σ → Prop} (h : EndsIn x s Q E)
    (hok : ∀ a t, Q a t → Q' a t) (herror : ∀ e t, E e t → E' e t) : EndsIn x s Q' E' := by
  unfold EndsIn at *
  cases hrun : x s with
  | ok a t =>
    rw [hrun] at h
    exact hok a t h
  | error e t =>
    rw [hrun] at h
    exact herror e t h

end EndsIn

end Algiz.Lib
