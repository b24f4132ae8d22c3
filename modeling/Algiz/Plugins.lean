/-
  `PluginHost`: asking the plugins in turn.
-/
import Mathlib.Data.List.Basic

namespace Algiz.Plugins

/-- What a plugin says of an event. -/
inductive CancelableResult where
  | pass | kill | disable | enable | approve
  deriving DecidableEq

/-- `HandlerResult` -/
inductive HandlerResult where
  | pass | kill
  deriving DecidableEq

/-- `should_pass` after a plugin said `result`. -/
def CancelableResult.shouldPass (before : Bool) : CancelableResult → Bool
  | .kill | .disable => false
  | .approve | .enable => true
  | .pass => before

/-- Does the result keep the event from the other plugins? -/
def CancelableResult.stops : CancelableResult → Bool
  | .kill | .approve => true
  | .pass | .disable | .enable => false

/-- What asking some plugins comes to: which were called, in order, the state they left,
    `should_pass`, and the result. -/
structure Asked (α S : Type*) where
  called : List α
  state : S
  shouldPass : Bool
  result : HandlerResult

/-- `PluginHost::beforeMulti`. `call f s b` is what calling `f` comes to in state `s`, told
    whether the result has not been disabled; an expired pointer is passed over. -/
def beforeMulti {α S : Type*} (expired : α → Bool) (call : α → S → Bool → S × CancelableResult) :
    List α → S → Bool → Asked α S
  | [], s, shouldPass => ⟨[], s, shouldPass, .pass⟩
  | f :: funcs, s, shouldPass =>
    if expired f then beforeMulti expired call funcs s shouldPass
    else
      let (s', result) := call f s shouldPass
      if result.stops then ⟨[f], s', result.shouldPass shouldPass, .kill⟩
      else
        let rest := beforeMulti expired call funcs s' (result.shouldPass shouldPass)
        { rest with called := f :: rest.called }

/-- Only members of the list that have not expired are called. -/
theorem mem_of_called {α S : Type*} (expired : α → Bool)
    (call : α → S → Bool → S × CancelableResult) (funcs : List α) (s : S) (shouldPass : Bool)
    {f : α} (hf : f ∈ (beforeMulti expired call funcs s shouldPass).called) :
    f ∈ funcs ∧ expired f = false := by
  induction funcs generalizing s shouldPass with
  | nil => exact absurd hf List.not_mem_nil
  | cons g funcs ih =>
    rw [beforeMulti] at hf
    by_cases hg : expired g = true
    · rw [if_pos hg] at hf
      have := ih s shouldPass hf
      exact ⟨List.mem_cons_of_mem g this.1, this.2⟩
    · rw [if_neg hg] at hf
      have halive : expired g = false := by rwa [Bool.not_eq_true] at hg
      dsimp only at hf
      split at hf
      · rw [List.mem_singleton] at hf
        exact ⟨hf ▸ List.mem_cons_self, hf ▸ halive⟩
      · rcases List.mem_cons.mp hf with rfl | hf
        · exact ⟨List.mem_cons_self, halive⟩
        · have := ih _ _ hf
          exact ⟨List.mem_cons_of_mem g this.1, this.2⟩

end Algiz.Plugins
