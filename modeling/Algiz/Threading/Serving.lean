/-
  The pool between a start and a join, and `ThreadPool`.

  `ThreadPool` is the pool that is active and that nobody joins. Forgetting `active`, `joining` and
  the calls of `add` that are not seen there, every step of the pool of `Lifetime` between a
  start and a join is one of its steps, or none (`run_refines`).
-/
import Algiz.Threading.Lifetime
import Algiz.Threading.ThreadPool

namespace Algiz.Threading

open Algiz.Lib

variable {J : Type*} {size : Nat}

/-- Where the worker stands in `ThreadPool`, which does not look at `active` and `joining`. -/
def Point.forget : Point J → Worker J
  | .gone | .entered => .starting
  | .looping n | .testing n | .testingReady n | .counted n => .checking n
  | .comparing n => .comparing n
  | .blocked n => .blocked n
  | .awake n | .taking n => .awake n
  | .taken job => .taken job
  | .running job => .running job
  | .emptyHanded => .emptyHanded

namespace Pool

def forget (s : Pool J size) : ThreadPool J size where
  workQueue := s.workQueue
  newJobReady := s.newJobReady
  jobsDone := s.jobsDone
  adding := s.adding
  workers := fun w => (s.workers w).forget

/-- The pool is active, and nobody joins it. -/
def Serving (s : Pool J size) : Prop := s.active = true ∧ s.joining = false

section Refines

variable {s t : Pool J size}

theorem forget_setWorker (s : Pool J size) (w : Fin size) (x : Point J) :
    (s.setWorker w x).forget = s.forget.setWorker w x.forget := by
  unfold forget ThreadPool.setWorker
  congr 1
  funext v
  exact Function.apply_update (fun _ => Point.forget) s.workers w x v

/-- A step that is not seen. -/
theorem forget_setWorker_same {w : Fin size} {x : Point J}
    (h : x.forget = (s.workers w).forget) : (s.setWorker w x).forget = s.forget := by
  have hsame : Function.update s.forget.workers w (s.workers w).forget = s.forget.workers :=
    Function.update_eq_self w s.forget.workers
  rw [forget_setWorker, h]
  unfold ThreadPool.setWorker
  rw [hsame]

/-- One step of `ThreadPool`, or none. -/
def Refines (s t : Pool J size) : Prop :=
  t.forget = s.forget ∨ ∃ e, s.forget.step e = some t.forget

theorem Goes.refines (hs : s.Serving) {w : Fin size} {x y : Point J} (hw : s.workers w = x)
    (h : Goes s x y) : Refines s (s.setWorker w y) := by
  have hworker : s.forget.workers w = x.forget := congrArg Point.forget hw
  have hstep : ∀ z, s.forget.advance w = some (s.forget.setWorker w z) → z = y.forget →
      Refines s (s.setWorker w y) := by
    intro z hz hy
    refine .inr ⟨.advance w, ?_⟩
    rw [forget_setWorker, ← hy]
    exact hz
  cases h with
  | leave n h => exact absurd (h.symm.trans hs.1) (by decide)
  | hear n h | quit n h => exact absurd (h.symm.trans hs.2) (by decide)
  | loop | test | resume => exact .inl (forget_setWorker_same (congrArg Point.forget hw).symm)
  | enter | back =>
    refine hstep _ ?_ rfl
    rw [ThreadPool.advance, hworker]
    rfl
  | ready n h =>
    refine hstep (.awake n) ?_ rfl
    rw [ThreadPool.advance, hworker]
    show some (s.forget.setWorker w (if s.newJobReady then _ else _)) = _
    rw [if_pos h]
  | compare n h =>
    refine hstep (.comparing n) ?_ rfl
    rw [ThreadPool.advance, hworker]
    show some (s.forget.setWorker w (if s.newJobReady then _ else _)) = _
    rw [h]
    rfl
  | more n h =>
    refine hstep (.awake n) ?_ rfl
    rw [ThreadPool.advance, hworker]
    show some (s.forget.setWorker w (if n < s.jobsDone then _ else _)) = _
    rw [if_pos h]
  | block n h =>
    refine hstep (.blocked n) ?_ rfl
    rw [ThreadPool.advance, hworker]
    show some (s.forget.setWorker w (if n < s.jobsDone then _ else _)) = _
    rw [if_neg h]
  | empty n h =>
    refine hstep .emptyHanded ?_ rfl
    rw [ThreadPool.advance, hworker]
    have hqueue : s.forget.workQueue = [] := h
    simp only [Point.forget, hqueue]

theorem Works.refines (hs : s.Serving) {w : Fin size} (h : Works s w t) : Refines s t := by
  cases h with
  | go hw hgoes => exact hgoes.refines hs hw
  | @take n job rest hw hqueue =>
    have hworker : s.forget.workers w = .awake n := congrArg Point.forget hw
    have hqueue' : s.forget.workQueue = job :: rest := hqueue
    refine .inr ⟨.advance w, ?_⟩
    rw [forget_setWorker]
    show s.forget.advance w = _
    rw [ThreadPool.advance, hworker]
    simp only [hqueue']
    rfl
  | @clear job hw =>
    have hworker : s.forget.workers w = .taken job := congrArg Point.forget hw
    refine .inr ⟨.advance w, ?_⟩
    rw [forget_setWorker]
    show s.forget.advance w = _
    rw [ThreadPool.advance, hworker]
    rfl
  | @finish job hw =>
    have hworker : s.forget.workers w = .running job := congrArg Point.forget hw
    refine .inr ⟨.advance w, ?_⟩
    rw [forget_setWorker]
    show s.forget.advance w = _
    rw [ThreadPool.advance, hworker]
    rfl

theorem Notifies.refines (h : Notifies s t) : Refines s t := by
  cases h with
  | @some w n hw =>
    have hworker : s.forget.workers w = .blocked n := congrArg Point.forget hw
    refine .inr ⟨.wake w, ?_⟩
    rw [forget_setWorker, ThreadPool.step, hworker]
    rfl
  | nobody => exact .inl rfl

/-- What is not seen comes before a step. -/
theorem Refines.after {u : Pool J size} (h : Refines t u) (hsame : t.forget = s.forget) :
    Refines s u := by
  unfold Refines at h ⊢
  rwa [hsame] at h

/-- A step between a start and a join is a step of `ThreadPool`, or none. -/
theorem step_refines (hstaged : s.Staged) (hs : s.Serving) (ht : t.Serving)
    {e : PoolEvent J size} (hstep : s.step e = some t) : Refines s t := by
  cases step_can hstep with
  | start | startNothing | joinNothing | enterAdd => exact .inl rfl
  | join =>
    have hclosed : false = true := ht.1
    exact nomatch hclosed
  | owner howns =>
    cases howns with
    | @spawn i hstage hi =>
      unfold Staged at hstaged
      rw [hstage] at hstaged
      refine .inl (forget_setWorker_same (s := { s with stage := .starting (i + 1) }) ?_)
      rw [hstaged.2.2 ⟨i, hi⟩ (Nat.le_refl i)]
      rfl
    | started | leave | joined | ended => exact .inl rfl
    | close =>
      have hset : true = false := ht.2
      exact nomatch hset
    | clear hstage =>
      unfold Staged at hstaged
      rw [hstage] at hstaged
      exact absurd (hstaged.1.symm.trans hs.1) (by decide)
    | notify hstage =>
      unfold Staged at hstaged
      rw [hstage] at hstaged
      exact absurd (hstaged.1.symm.trans hs.1) (by decide)
  | push job h => exact .inr ⟨.push job, rfl⟩
  | setReady h =>
    refine .inr ⟨.setReady, ?_⟩
    rw [ThreadPool.step]
    exact if_neg h
  | tell _ hnotifies => exact hnotifies.refines.after rfl
  | advance hworks => exact hworks.refines hs
  | notify hw hnotifies =>
    exact hnotifies.refines.after (forget_setWorker_same (congrArg Point.forget hw).symm)
  | wake hw => exact (Notifies.some hw).refines

/-- The pool between a start and a join refines `ThreadPool`: a run of it is a run there, in
    which every step is seen or is none. So what holds of all states that a run of `ThreadPool`
    can lead to holds of this pool, until it is joined. -/
theorem run_refines {es₀ es : List (PoolEvent J size)} (hs : exec step {} es₀ = some s)
    (hexec : exec step s es = some t) (hserving : AllStates step Serving s es) :
    ∃ es', es'.length ≤ es.length ∧ exec ThreadPool.step s.forget es' = some t.forget := by
  have hstaged : s.Staged := exec_invariant (fun _ _ _ h hstep => h.step hstep) staged_init hs
  clear hs es₀
  induction es generalizing s with
  | nil =>
    obtain rfl := Option.some.inj hexec
    exact ⟨[], Nat.le_refl 0, rfl⟩
  | cons e es ih =>
    obtain ⟨u, hu, hrest⟩ := exec_cons hexec
    have hnext := hserving.2 u hu
    obtain ⟨es', hlen, hexec'⟩ := ih hrest hnext (hstaged.step hu)
    rcases step_refines hstaged hserving.1 hnext.head hu with hsame | ⟨e', he'⟩
    · exact ⟨es', Nat.le_succ_of_le hlen, hsame ▸ hexec'⟩
    · refine ⟨e' :: es', Nat.succ_le_succ hlen, ?_⟩
      rw [exec, he']
      exact hexec'

/-- A pool of one worker that has just been started. -/
def justStarted : Pool Nat 1 :=
  { active := true, workers := Function.update (fun _ => .gone) only .entered }

/-- A job is added while the worker goes on to its predicate. -/
def firstJob : List (PoolEvent Nat 1) :=
  [.enterAdd, .advance only, .push 1, .advance only, .setReady, .advance only]

theorem run_refines_firstJob :
    ∃ es', es'.length ≤ firstJob.length ∧ exec ThreadPool.step justStarted.forget es' =
      some ((exec step justStarted firstJob).get (by decide)).forget := by
  have hstarted : exec step {} [.start, .owner, .owner] = some justStarted := rfl
  exact run_refines hstarted (Option.some_get _).symm
    (by simp [AllStates, Serving, step, advance, setWorker, justStarted, firstJob])

end Refines

end Pool

end Algiz.Threading
