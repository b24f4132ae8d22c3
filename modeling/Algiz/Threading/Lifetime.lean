/-
  `ThreadPool` from `start` to `join`, and again.

  One thread starts and joins the pool, and any number of threads add jobs to it; the steps of all
  of them and of the workers interleave freely. A step is one access to the queue or to one of
  the flags, one notification, or one look at whether a thread has ended. `workMutex` keeps the
  workers' tests of their predicate apart; those who notify do not take it, so it is left out.

  Jobs leave the queue in the order in which they were added, each to one worker, which does it
  once, or to a `join`, which drops it; when a `join` has returned, no worker has a job
  (`accounted`).
-/
import Mathlib.Algebra.BigOperators.Group.Finset.Basic
import Mathlib.Data.Fintype.Basic
import Mathlib.Data.Multiset.AddSub
import Algiz.Lib.Transition

namespace Algiz.Threading

open Algiz.Lib

/-! ## The pool -/

/-- Where the thread of a worker stands, with its `last_jobs_done` as long as it is read. -/
inductive Point (J : Type*) where
  /-- there is no thread, or it has left its loop -/
  | gone
  /-- next it reads `jobsDone` for the first time -/
  | entered
  /-- at the head of the loop: next it reads `active` -/
  | looping (lastJobsDone : Nat)
  /-- at the predicate of `workCV.wait`: next it reads `joining` -/
  | testing (lastJobsDone : Nat)
  /-- `joining` was false: next it reads `newJobReady` -/
  | testingReady (lastJobsDone : Nat)
  /-- `newJobReady` was false: next it reads `jobsDone` -/
  | comparing (lastJobsDone : Nat)
  /-- the predicate was false: blocked in `workCV.wait` -/
  | blocked (lastJobsDone : Nat)
  /-- out of `wait`: next it reads `joining` -/
  | awake (lastJobsDone : Nat)
  /-- next it calls `workQueue.tryTake()` -/
  | taking (lastJobsDone : Nat)
  /-- it has a job: next it clears `newJobReady` -/
  | taken (job : J)
  /-- it runs the job: next it counts it -/
  | running (job : J)
  /-- it has counted the job: next it calls `workCV.notify_one()` -/
  | counted (lastJobsDone : Nat)
  /-- `tryTake` gave nothing: next it reads `jobsDone` -/
  | emptyHanded
  deriving DecidableEq

/-- Where the thread stands that starts and joins the pool. -/
inductive Stage where
  /-- neither in `start` nor in `join` -/
  | idle
  /-- in the loop of `start`: the next thread has this index -/
  | starting (index : Nat)
  /-- in `join`: next it exchanges `joining` -/
  | closing
  /-- next it clears the queue -/
  | clearing
  /-- next it calls `workCV.notify_all()` -/
  | notifying
  /-- it joins the thread with this index -/
  | waiting (index : Nat)
  deriving DecidableEq

/-- What became of a job that left the queue. -/
inductive Fate where
  | taken | dropped
  deriving DecidableEq

/-- `ThreadPool`, and what has become of its jobs. -/
structure Pool (J : Type*) (size : Nat) where
  workQueue : List J := []
  active : Bool := false
  joining : Bool := false
  newJobReady : Bool := false
  jobsDone : Nat := 0
  workers : Fin size → Point J := fun _ => .gone
  stage : Stage := .idle
  /-- the calls of `add` that have found `active` true and have not pushed their job -/
  admitted : Nat := 0
  /-- the calls of `add` between `workQueue.push` and `newJobReady = true` -/
  adding : Nat := 0
  /-- the calls of `add` that are about to call `workCV.notify_one()` -/
  telling : Nat := 0
  /-- the jobs that were pushed, in order -/
  pushed : List J := []
  /-- the jobs that have left the queue, in order -/
  left : List (Fate × J) := []
  /-- the jobs that have been run -/
  done : List J := []

inductive PoolEvent (J : Type*) (size : Nat) where
  /-- `start` is called -/
  | start
  /-- `join` is called -/
  | join
  /-- the thread in `start` or `join` goes on -/
  | owner
  /-- a call of `add` finds `active` true -/
  | enterAdd
  | push (job : J)
  | setReady
  /-- a call of `add` notifies this worker, or nobody if none is blocked -/
  | tell (target : Option (Fin size))
  /-- a worker goes on -/
  | advance (w : Fin size)
  /-- a worker that has counted its job notifies this one, or nobody if none is blocked -/
  | notify (w : Fin size) (target : Option (Fin size))
  /-- a blocked worker wakes of itself -/
  | wake (w : Fin size)

variable {J : Type*} {size : Nat}

def Point.isGone : Point J → Bool
  | .gone => true
  | .entered | .looping _ | .testing _ | .testingReady _ | .comparing _ | .blocked _ | .awake _
  | .taking _ | .taken _ | .running _ | .counted _ | .emptyHanded => false

def Point.isBlocked : Point J → Bool
  | .blocked _ => true
  | .gone | .entered | .looping _ | .testing _ | .testingReady _ | .comparing _ | .awake _
  | .taking _ | .taken _ | .running _ | .counted _ | .emptyHanded => false

/-- A notified worker tests its predicate again. -/
def Point.notified : Point J → Point J
  | .blocked n => .testing n
  | x => x

/-- The job that a worker has. -/
def Point.held : Point J → Multiset J
  | .taken job | .running job => {job}
  | .gone | .entered | .looping _ | .testing _ | .testingReady _ | .comparing _ | .blocked _
  | .awake _ | .taking _ | .counted _ | .emptyHanded => 0

namespace Pool

/-- The worker of a pool of one. -/
def only : Fin 1 := 0

def setWorker (s : Pool J size) (w : Fin size) (x : Point J) : Pool J size :=
  { s with workers := Function.update s.workers w x }

/-- `workCV.notify_one()` wakes this worker. -/
def notifyOne (s : Pool J size) : Option (Fin size) → Option (Pool J size)
  | some w => if (s.workers w).isBlocked then some (s.setWorker w (s.workers w).notified) else none
  | none => if ∀ w, (s.workers w).isBlocked = false then some s else none

/-- `workCV.notify_all()` -/
def notifyAll (s : Pool J size) : Pool J size :=
  { s with workers := fun w => (s.workers w).notified }

/-- The next step of a worker, unless it is to notify another. -/
def advance (s : Pool J size) (w : Fin size) : Option (Pool J size) :=
  match s.workers w with
  | .gone | .blocked _ | .counted _ => none
  | .entered => some (s.setWorker w (.looping s.jobsDone))
  | .looping n => some (s.setWorker w (if s.active then .testing n else .gone))
  | .testing n => some (s.setWorker w (if s.joining then .awake n else .testingReady n))
  | .testingReady n => some (s.setWorker w (if s.newJobReady then .awake n else .comparing n))
  | .comparing n => some (s.setWorker w (if n < s.jobsDone then .awake n else .blocked n))
  | .awake n => some (s.setWorker w (if s.joining then .gone else .taking n))
  | .taking _ =>
    match s.workQueue with
    | [] => some (s.setWorker w .emptyHanded)
    | job :: rest =>
      some ({ s with workQueue := rest, left := s.left ++ [(Fate.taken, job)] }.setWorker w
        (.taken job))
  | .taken job => some ({ s with newJobReady := false }.setWorker w (.running job))
  | .running job =>
    some ({ s with jobsDone := s.jobsDone + 1, done := s.done ++ [job] }.setWorker w
      (.counted (s.jobsDone + 1)))
  | .emptyHanded => some (s.setWorker w (.looping s.jobsDone))

/-- The next step in `start` or in `join`. -/
def owner (s : Pool J size) : Option (Pool J size) :=
  match s.stage with
  | .idle => none
  | .starting i =>
    if h : i < size then some ({ s with stage := .starting (i + 1) }.setWorker ⟨i, h⟩ .entered)
    else some { s with stage := .idle }
  | .closing =>
    if s.joining then some { s with stage := .idle }
    else some { s with joining := true, stage := .clearing }
  | .clearing =>
    some { s with
      workQueue := []
      left := s.left ++ s.workQueue.map (Fate.dropped, ·)
      stage := .notifying }
  | .notifying => some { s.notifyAll with stage := .waiting 0 }
  | .waiting i =>
    if h : i < size then
      if (s.workers ⟨i, h⟩).isGone then some { s with stage := .waiting (i + 1) } else none
    else some { s with joining := false, stage := .idle }

/-- One step; `none` if it cannot be taken. -/
def step (s : Pool J size) : PoolEvent J size → Option (Pool J size)
  | .start =>
    if s.stage = .idle then
      if s.joining then some s
      else if s.active then some s
      else some { s with active := true, stage := .starting 0 }
    else none
  | .join =>
    if s.stage = .idle then
      if s.active then some { s with active := false, stage := .closing } else some s
    else none
  | .owner => s.owner
  | .enterAdd => if s.active then some { s with admitted := s.admitted + 1 } else none
  | .push job =>
    if s.admitted = 0 then none
    else some { s with
      workQueue := s.workQueue ++ [job]
      pushed := s.pushed ++ [job]
      admitted := s.admitted - 1
      adding := s.adding + 1 }
  | .setReady =>
    if s.adding = 0 then none
    else some { s with newJobReady := true, adding := s.adding - 1, telling := s.telling + 1 }
  | .tell target =>
    if s.telling = 0 then none
    else { s with telling := s.telling - 1 }.notifyOne target
  | .advance w => s.advance w
  | .notify w target =>
    match s.workers w with
    | .counted n => (s.setWorker w (.looping n)).notifyOne target
    | _ => none
  | .wake w =>
    if (s.workers w).isBlocked then some (s.setWorker w (s.workers w).notified) else none

/-! ## What a step can do -/

/-- The steps of a worker that change nothing but where it stands. -/
inductive Goes (s : Pool J size) : Point J → Point J → Prop
  | enter : Goes s .entered (.looping s.jobsDone)
  | loop (n : Nat) (h : s.active = true) : Goes s (.looping n) (.testing n)
  | leave (n : Nat) (h : s.active = false) : Goes s (.looping n) .gone
  | hear (n : Nat) (h : s.joining = true) : Goes s (.testing n) (.awake n)
  | test (n : Nat) (h : s.joining = false) : Goes s (.testing n) (.testingReady n)
  | ready (n : Nat) (h : s.newJobReady = true) : Goes s (.testingReady n) (.awake n)
  | compare (n : Nat) (h : s.newJobReady = false) : Goes s (.testingReady n) (.comparing n)
  | more (n : Nat) (h : n < s.jobsDone) : Goes s (.comparing n) (.awake n)
  | block (n : Nat) (h : ¬ n < s.jobsDone) : Goes s (.comparing n) (.blocked n)
  | quit (n : Nat) (h : s.joining = true) : Goes s (.awake n) .gone
  | resume (n : Nat) (h : s.joining = false) : Goes s (.awake n) (.taking n)
  | empty (n : Nat) (h : s.workQueue = []) : Goes s (.taking n) .emptyHanded
  | back : Goes s .emptyHanded (.looping s.jobsDone)

/-- What a step of a worker comes to, unless it notifies another. -/
inductive Works (s : Pool J size) (w : Fin size) : Pool J size → Prop
  | go {x y : Point J} (hw : s.workers w = x) (h : Goes s x y) : Works s w (s.setWorker w y)
  | take {n : Nat} {job : J} {rest : List J} (hw : s.workers w = .taking n)
      (hqueue : s.workQueue = job :: rest) :
      Works s w ({ s with workQueue := rest, left := s.left ++ [(Fate.taken, job)] }.setWorker w
        (.taken job))
  | clear {job : J} (hw : s.workers w = .taken job) :
      Works s w ({ s with newJobReady := false }.setWorker w (.running job))
  | finish {job : J} (hw : s.workers w = .running job) :
      Works s w ({ s with jobsDone := s.jobsDone + 1, done := s.done ++ [job] }.setWorker w
        (.counted (s.jobsDone + 1)))

/-- A blocked worker, or nobody, is sent back to its predicate. -/
inductive Notifies (s : Pool J size) : Pool J size → Prop
  | some {w : Fin size} {n : Nat} (hw : s.workers w = .blocked n) :
      Notifies s (s.setWorker w (.testing n))
  | nobody : Notifies s s

/-- What a step in `start` or in `join` comes to. -/
inductive Owns (s : Pool J size) : Pool J size → Prop
  | spawn {i : Nat} (hstage : s.stage = .starting i) (h : i < size) :
      Owns s ({ s with stage := .starting (i + 1) }.setWorker ⟨i, h⟩ .entered)
  | started {i : Nat} (hstage : s.stage = .starting i) (h : ¬ i < size) :
      Owns s { s with stage := .idle }
  | leave (hstage : s.stage = .closing) (hjoining : s.joining = true) :
      Owns s { s with stage := .idle }
  | close (hstage : s.stage = .closing) (hjoining : s.joining = false) :
      Owns s { s with joining := true, stage := .clearing }
  | clear (hstage : s.stage = .clearing) :
      Owns s { s with
        workQueue := []
        left := s.left ++ s.workQueue.map (Fate.dropped, ·)
        stage := .notifying }
  | notify (hstage : s.stage = .notifying) : Owns s { s.notifyAll with stage := .waiting 0 }
  | joined {i : Nat} (hstage : s.stage = .waiting i) (h : i < size)
      (hgone : s.workers ⟨i, h⟩ = .gone) : Owns s { s with stage := .waiting (i + 1) }
  | ended {i : Nat} (hstage : s.stage = .waiting i) (h : ¬ i < size) :
      Owns s { s with joining := false, stage := .idle }

/-- What a step comes to. -/
inductive Can (s : Pool J size) : PoolEvent J size → Pool J size → Prop
  | start (hstage : s.stage = .idle) (hactive : s.active = false) :
      Can s .start { s with active := true, stage := .starting 0 }
  | startNothing (hstage : s.stage = .idle) : Can s .start s
  | join (hstage : s.stage = .idle) (hactive : s.active = true) :
      Can s .join { s with active := false, stage := .closing }
  | joinNothing (hstage : s.stage = .idle) : Can s .join s
  | owner {t : Pool J size} (h : Owns s t) : Can s .owner t
  | enterAdd (hactive : s.active = true) : Can s .enterAdd { s with admitted := s.admitted + 1 }
  | push (job : J) (h : s.admitted ≠ 0) : Can s (.push job) { s with
      workQueue := s.workQueue ++ [job]
      pushed := s.pushed ++ [job]
      admitted := s.admitted - 1
      adding := s.adding + 1 }
  | setReady (h : s.adding ≠ 0) : Can s .setReady { s with
      newJobReady := true
      adding := s.adding - 1
      telling := s.telling + 1 }
  | tell {target : Option (Fin size)} {t : Pool J size} (h : s.telling ≠ 0)
      (hnotifies : Notifies { s with telling := s.telling - 1 } t) : Can s (.tell target) t
  | advance {w : Fin size} {t : Pool J size} (h : Works s w t) : Can s (.advance w) t
  | notify {w : Fin size} {target : Option (Fin size)} {n : Nat} {t : Pool J size}
      (hw : s.workers w = .counted n) (hnotifies : Notifies (s.setWorker w (.looping n)) t) :
      Can s (.notify w target) t
  | wake {w : Fin size} {n : Nat} (hw : s.workers w = .blocked n) :
      Can s (.wake w) (s.setWorker w (.testing n))

section Steps

variable {s t : Pool J size}

@[simp] theorem setWorker_self (s : Pool J size) (w : Fin size) (x : Point J) :
    (s.setWorker w x).workers w = x := Function.update_self ..

@[simp] theorem setWorker_of_ne (s : Pool J size) {v w : Fin size} (h : v ≠ w) (x : Point J) :
    (s.setWorker w x).workers v = s.workers v := Function.update_of_ne h ..

theorem advance_works {w : Fin size} (h : s.advance w = some t) : Works s w t := by
  unfold advance at h
  cases hw : s.workers w with
  | gone | blocked | counted =>
    rw [hw] at h
    exact nomatch h
  | entered =>
    rw [hw] at h
    obtain rfl := Option.some.inj h
    exact .go hw .enter
  | looping n =>
    rw [hw] at h
    obtain rfl := Option.some.inj h
    split
    · exact .go hw (.loop n ‹_›)
    · exact .go hw (.leave n (Bool.not_eq_true _ ▸ ‹_›))
  | testing n =>
    rw [hw] at h
    obtain rfl := Option.some.inj h
    split
    · exact .go hw (.hear n ‹_›)
    · exact .go hw (.test n (Bool.not_eq_true _ ▸ ‹_›))
  | testingReady n =>
    rw [hw] at h
    obtain rfl := Option.some.inj h
    split
    · exact .go hw (.ready n ‹_›)
    · exact .go hw (.compare n (Bool.not_eq_true _ ▸ ‹_›))
  | comparing n =>
    rw [hw] at h
    obtain rfl := Option.some.inj h
    split
    · exact .go hw (.more n ‹_›)
    · exact .go hw (.block n ‹_›)
  | awake n =>
    rw [hw] at h
    obtain rfl := Option.some.inj h
    split
    · exact .go hw (.quit n ‹_›)
    · exact .go hw (.resume n (Bool.not_eq_true _ ▸ ‹_›))
  | taking n =>
    rw [hw] at h
    dsimp only at h
    split at h
    · obtain rfl := Option.some.inj h
      exact .go hw (.empty n ‹_›)
    · obtain rfl := Option.some.inj h
      exact .take hw ‹_›
  | taken job =>
    rw [hw] at h
    obtain rfl := Option.some.inj h
    exact .clear hw
  | running job =>
    rw [hw] at h
    obtain rfl := Option.some.inj h
    exact .finish hw
  | emptyHanded =>
    rw [hw] at h
    obtain rfl := Option.some.inj h
    exact .go hw .back

theorem eq_gone {x : Point J} (h : x.isGone = true) : x = .gone := by
  cases x with
  | gone => rfl
  | entered | looping | testing | testingReady | comparing | blocked | awake | taking | taken
  | running | counted | emptyHanded => exact absurd h Bool.false_ne_true

theorem eq_blocked {x : Point J} (h : x.isBlocked = true) : ∃ n, x = .blocked n := by
  cases x with
  | blocked n => exact ⟨n, rfl⟩
  | gone | entered | looping | testing | testingReady | comparing | awake | taking | taken
  | running | counted | emptyHanded => exact absurd h Bool.false_ne_true

theorem notifyOne_notifies {target : Option (Fin size)} (h : s.notifyOne target = some t) :
    Notifies s t := by
  cases target with
  | none =>
    rw [notifyOne] at h
    split at h
    · obtain rfl := Option.some.inj h
      exact .nobody
    · exact nomatch h
  | some w =>
    rw [notifyOne] at h
    split at h
    · rename_i hblocked
      obtain ⟨n, hw⟩ := eq_blocked hblocked
      obtain rfl := Option.some.inj h
      rw [hw]
      exact .some hw
    · exact nomatch h

theorem owner_owns (h : s.owner = some t) : Owns s t := by
  unfold owner at h
  split at h
  · exact nomatch h
  · split at h
    · obtain rfl := Option.some.inj h
      exact .spawn ‹_› ‹_›
    · obtain rfl := Option.some.inj h
      exact .started ‹_› ‹_›
  · split at h
    · obtain rfl := Option.some.inj h
      exact .leave ‹_› ‹_›
    · obtain rfl := Option.some.inj h
      exact .close ‹_› (Bool.not_eq_true _ ▸ ‹_›)
  · obtain rfl := Option.some.inj h
    exact .clear ‹_›
  · obtain rfl := Option.some.inj h
    exact .notify ‹_›
  · split at h
    · split at h
      · obtain rfl := Option.some.inj h
        exact .joined ‹_› ‹_› (eq_gone ‹_›)
      · exact nomatch h
    · obtain rfl := Option.some.inj h
      exact .ended ‹_› ‹_›

/-- Every step is one of these. -/
theorem step_can {e : PoolEvent J size} (h : s.step e = some t) : Can s e t := by
  cases e with
  | start =>
    rw [step] at h
    split at h
    · split at h
      · obtain rfl := Option.some.inj h
        exact .startNothing ‹_›
      · split at h
        · obtain rfl := Option.some.inj h
          exact .startNothing ‹_›
        · obtain rfl := Option.some.inj h
          exact .start ‹_› (Bool.not_eq_true _ ▸ ‹_›)
    · exact nomatch h
  | join =>
    rw [step] at h
    split at h
    · split at h
      · obtain rfl := Option.some.inj h
        exact .join ‹_› ‹_›
      · obtain rfl := Option.some.inj h
        exact .joinNothing ‹_›
    · exact nomatch h
  | owner => exact .owner (owner_owns h)
  | enterAdd =>
    rw [step] at h
    split at h
    · obtain rfl := Option.some.inj h
      exact .enterAdd ‹_›
    · exact nomatch h
  | push job =>
    rw [step] at h
    split at h
    · exact nomatch h
    · obtain rfl := Option.some.inj h
      exact .push job ‹_›
  | setReady =>
    rw [step] at h
    split at h
    · exact nomatch h
    · obtain rfl := Option.some.inj h
      exact .setReady ‹_›
  | tell target =>
    rw [step] at h
    split at h
    · exact nomatch h
    · exact .tell ‹_› (notifyOne_notifies h)
  | advance w => exact .advance (advance_works h)
  | notify w target =>
    rw [step] at h
    split at h
    · exact .notify ‹_› (notifyOne_notifies h)
    · exact nomatch h
  | wake w =>
    rw [step] at h
    split at h
    · obtain ⟨n, hw⟩ := eq_blocked ‹_›
      obtain rfl := Option.some.inj h
      rw [hw]
      exact .wake hw
    · exact nomatch h

end Steps

/-! ## Where the threads are -/

/-- What the flags are, and which threads there are, at each point of `start` and `join`. -/
def Staged (s : Pool J size) : Prop :=
  match s.stage with
  | .idle => s.joining = false ∧ (s.active = false → ∀ w, s.workers w = .gone)
  | .starting i => s.active = true ∧ s.joining = false ∧ ∀ w, i ≤ w.val → s.workers w = .gone
  | .closing => s.active = false ∧ s.joining = false
  | .clearing | .notifying => s.active = false ∧ s.joining = true
  | .waiting i => s.active = false ∧ s.joining = true ∧ ∀ w, w.val < i → s.workers w = .gone

theorem staged_init : Staged ({} : Pool J size) := ⟨rfl, fun _ _ => rfl⟩

section Staged

variable {s t : Pool J size}

/-- The flags and the stage are the same, and no thread has been started. -/
structure SameStage (s t : Pool J size) : Prop where
  stage : t.stage = s.stage
  active : t.active = s.active
  joining : t.joining = s.joining
  gone : ∀ w, s.workers w = .gone → t.workers w = .gone

theorem Staged.same (h : s.Staged) (hsame : SameStage s t) : t.Staged := by
  obtain ⟨hstage, hactive, hjoining, hgone⟩ := hsame
  unfold Staged at h ⊢
  rw [hstage, hactive, hjoining]
  cases hs : s.stage with
  | idle =>
    rw [hs] at h
    exact ⟨h.1, fun hinactive w => hgone w (h.2 hinactive w)⟩
  | starting i =>
    rw [hs] at h
    exact ⟨h.1, h.2.1, fun w hw => hgone w (h.2.2 w hw)⟩
  | closing | clearing | notifying =>
    rw [hs] at h
    exact h
  | waiting i =>
    rw [hs] at h
    exact ⟨h.1, h.2.1, fun w hw => hgone w (h.2.2 w hw)⟩

/-- A thread that there is goes on. -/
theorem SameStage.setWorker {w : Fin size} (hw : s.workers w ≠ .gone) (x : Point J) :
    SameStage s (s.setWorker w x) := by
  refine ⟨rfl, rfl, rfl, fun v hv => ?_⟩
  have hne : v ≠ w := by
    rintro rfl
    exact hw hv
  rwa [setWorker_of_ne s hne]

theorem SameStage.trans {u : Pool J size} (h : SameStage s t) (h' : SameStage t u) :
    SameStage s u :=
  ⟨h'.stage.trans h.stage, h'.active.trans h.active, h'.joining.trans h.joining,
    fun w hw => h'.gone w (h.gone w hw)⟩

theorem Goes.ne_gone {x y : Point J} (h : Goes s x y) : x ≠ .gone := by
  cases h <;> nofun

theorem Works.sameStage {w : Fin size} (h : Works s w t) : SameStage s t := by
  cases h with
  | go hw hgoes => exact .setWorker (hw ▸ hgoes.ne_gone) _
  | take hw _ | clear hw | finish hw =>
    have hthere : s.workers w ≠ .gone := by
      rw [hw]
      exact nofun
    exact ⟨rfl, rfl, rfl, (SameStage.setWorker hthere _).gone⟩

theorem Notifies.sameStage (h : Notifies s t) : SameStage s t := by
  cases h with
  | some hw =>
    refine .setWorker ?_ _
    rw [hw]
    exact nofun
  | nobody => exact ⟨rfl, rfl, rfl, fun _ hv => hv⟩

theorem Staged.owns (h : s.Staged) (howns : Owns s t) : t.Staged := by
  unfold Staged at h
  cases howns with
  | @spawn i hstage hi =>
    rw [hstage] at h
    refine ⟨h.1, h.2.1, fun w hw => ?_⟩
    have hne : w ≠ ⟨i, hi⟩ := by
      rintro rfl
      exact absurd hw (Nat.not_succ_le_self i)
    rw [setWorker_of_ne _ hne]
    exact h.2.2 w (Nat.le_of_succ_le hw)
  | started hstage hi =>
    rw [hstage] at h
    exact ⟨h.2.1, fun hinactive => absurd (h.1.symm.trans hinactive) (by decide)⟩
  | leave hstage hjoining =>
    rw [hstage] at h
    exact absurd (hjoining.symm.trans h.2) (by decide)
  | close hstage hjoining =>
    rw [hstage] at h
    exact ⟨h.1, rfl⟩
  | clear hstage =>
    rw [hstage] at h
    exact h
  | notify hstage =>
    rw [hstage] at h
    exact ⟨h.1, h.2, fun w hw => absurd hw (Nat.not_lt_zero _)⟩
  | @joined i hstage hi hgone =>
    rw [hstage] at h
    refine ⟨h.1, h.2.1, fun w hw => ?_⟩
    rcases Nat.lt_succ_iff_lt_or_eq.mp hw with hlt | heq
    · exact h.2.2 w hlt
    · have hw : w = ⟨i, hi⟩ := Fin.ext heq
      exact hw ▸ hgone
  | @ended i hstage hi =>
    rw [hstage] at h
    exact ⟨rfl, fun _ w => h.2.2 w (Nat.lt_of_lt_of_le w.isLt (Nat.not_lt.mp hi))⟩

theorem Staged.step (h : s.Staged) {e : PoolEvent J size} (hstep : s.step e = some t) :
    t.Staged := by
  cases step_can hstep with
  | start hstage hactive =>
    unfold Staged at h
    rw [hstage] at h
    exact ⟨rfl, h.1, fun w _ => h.2 hactive w⟩
  | startNothing | joinNothing => exact h
  | join hstage _ =>
    unfold Staged at h
    rw [hstage] at h
    exact ⟨rfl, h.1⟩
  | owner howns => exact h.owns howns
  | enterAdd | push | setReady => exact h.same ⟨rfl, rfl, rfl, fun _ hw => hw⟩
  | tell _ hnotifies =>
    have hcalled : SameStage s { s with telling := s.telling - 1 } :=
      ⟨rfl, rfl, rfl, fun _ hw => hw⟩
    exact h.same (hcalled.trans hnotifies.sameStage)
  | advance hworks => exact h.same hworks.sameStage
  | notify hw hnotifies =>
    refine h.same ((SameStage.setWorker ?_ _).trans hnotifies.sameStage)
    rw [hw]
    exact nofun
  | wake hw => exact h.same (Notifies.some hw).sameStage

end Staged

/-! ## What becomes of the jobs -/

/-- The jobs that workers took out of the queue. -/
def takenJobs (left : List (Fate × J)) : Multiset J :=
  ((left.filter fun entry => entry.1 = .taken).map Prod.snd : List J)

/-- The jobs that workers have. -/
def heldJobs (s : Pool J size) : Multiset J := ∑ w, (s.workers w).held

/-- Every job that was pushed has left the queue, in order, or is still queued; and those that
    were taken have been run once each, or a worker has them. -/
structure Accounted (s : Pool J size) : Prop where
  order : s.pushed = s.left.map Prod.snd ++ s.workQueue
  held : takenJobs s.left = s.done + s.heldJobs

/-- A sum in which one term changes. -/
theorem sum_update {M : Type*} [AddCommMonoid M] (f : Point J → M) (workers : Fin size → Point J)
    (w : Fin size) (x : Point J) :
    ∑ v, f (Function.update workers w x v) + f (workers w) = ∑ v, f (workers v) + f x := by
  have hrest : ∑ v ∈ Finset.univ.erase w, f (Function.update workers w x v) =
      ∑ v ∈ Finset.univ.erase w, f (workers v) := by
    refine Finset.sum_congr rfl fun v hv => ?_
    rw [Function.update_of_ne (Finset.ne_of_mem_erase hv)]
  have hleft := Finset.add_sum_erase Finset.univ (fun v => f (Function.update workers w x v))
    (Finset.mem_univ w)
  have hright := Finset.add_sum_erase Finset.univ (fun v => f (workers v)) (Finset.mem_univ w)
  rw [← hleft, ← hright, hrest, Function.update_self]
  exact (add_rotate _ _ _).trans (add_rotate _ _ _ |>.trans (add_right_comm _ _ _))

section Accounted

variable {s t : Pool J size}

theorem heldJobs_setWorker (s : Pool J size) (w : Fin size) (x : Point J) :
    (s.setWorker w x).heldJobs + (s.workers w).held = s.heldJobs + x.held :=
  sum_update Point.held s.workers w x

/-- A worker that goes on with the job it has, or without one. -/
theorem Accounted.setWorker (h : s.Accounted) {w : Fin size} {x : Point J}
    (hheld : x.held = (s.workers w).held) : (s.setWorker w x).Accounted := by
  have hsame := heldJobs_setWorker s w x
  rw [hheld, add_left_inj] at hsame
  exact ⟨h.order, h.held.trans (congrArg _ hsame.symm)⟩

theorem Goes.held {x y : Point J} (h : Goes s x y) : y.held = x.held := by
  cases h <;> rfl

theorem Accounted.works (h : s.Accounted) {w : Fin size} (hworks : Works s w t) :
    t.Accounted := by
  cases hworks with
  | go hw hgoes => exact h.setWorker (hgoes.held.trans (congrArg Point.held hw.symm))
  | @take n job rest hw hqueue =>
    have hheld := heldJobs_setWorker s w (.taken job)
    rw [hw] at hheld
    refine ⟨?_, ?_⟩
    · show s.pushed = (s.left ++ [(Fate.taken, job)]).map Prod.snd ++ rest
      rw [h.order, hqueue]
      simp
    · show ((((s.left ++ [(Fate.taken, job)]).filter _).map Prod.snd : List J) : Multiset J) = _
      rw [List.filter_append, List.map_append, ← Multiset.coe_add]
      have htaken := h.held
      unfold takenJobs at htaken
      rw [htaken, add_assoc]
      exact congrArg _ (hheld.symm.trans (add_zero _))
  | @clear job hw =>
    exact Accounted.setWorker (s := { s with newJobReady := false }) ⟨h.order, h.held⟩
      (w := w) (congrArg Point.held hw).symm
  | @finish job hw =>
    have hheld := heldJobs_setWorker s w (.counted (s.jobsDone + 1))
    rw [hw] at hheld
    refine ⟨h.order, h.held.trans ?_⟩
    show _ = ((s.done ++ [job] : List J) : Multiset J) +
      (s.setWorker w (.counted (s.jobsDone + 1))).heldJobs
    rw [← Multiset.coe_add, add_assoc]
    refine congrArg _ ?_
    rw [add_comm]
    exact (add_zero _).symm.trans hheld.symm

theorem Accounted.notifies (h : s.Accounted) (hnotifies : Notifies s t) : t.Accounted := by
  cases hnotifies with
  | some hw =>
    refine h.setWorker ?_
    rw [hw]
    rfl
  | nobody => exact h

theorem notified_held (x : Point J) : x.notified.held = x.held := by
  cases x <;> rfl

theorem takenJobs_dropped (left : List (Fate × J)) (jobs : List J) :
    takenJobs (left ++ jobs.map (Fate.dropped, ·)) = takenJobs left := by
  have hnone : (jobs.map (Fate.dropped, ·)).filter (fun entry => entry.1 = Fate.taken) = [] := by
    rw [List.filter_eq_nil_iff]
    intro entry hentry
    obtain ⟨job, -, rfl⟩ := List.mem_map.mp hentry
    exact of_decide_eq_true rfl
  unfold takenJobs
  rw [List.filter_append, hnone, List.append_nil]

theorem Accounted.owns (h : s.Accounted) (hstaged : s.Staged) (howns : Owns s t) :
    t.Accounted := by
  cases howns with
  | @spawn i hstage hi =>
    unfold Staged at hstaged
    rw [hstage] at hstaged
    have hgone := hstaged.2.2 ⟨i, hi⟩ (Nat.le_refl i)
    refine Accounted.setWorker (s := { s with stage := .starting (i + 1) }) ⟨h.order, h.held⟩ ?_
    rw [hgone]
    rfl
  | started | leave | close | joined | ended => exact ⟨h.order, h.held⟩
  | clear hstage =>
    refine ⟨?_, (takenJobs_dropped s.left s.workQueue).trans h.held⟩
    show s.pushed = (s.left ++ s.workQueue.map (Fate.dropped, ·)).map Prod.snd ++ []
    rw [h.order]
    simp
  | notify hstage =>
    refine ⟨h.order, h.held.trans (congrArg _ ?_)⟩
    exact Finset.sum_congr rfl fun w _ => (notified_held (s.workers w)).symm

theorem Accounted.step (h : s.Accounted) (hstaged : s.Staged) {e : PoolEvent J size}
    (hstep : s.step e = some t) : t.Accounted := by
  cases step_can hstep with
  | startNothing | joinNothing => exact h
  | start | join | enterAdd | setReady => exact ⟨h.order, h.held⟩
  | owner howns => exact h.owns hstaged howns
  | push job _ =>
    refine ⟨?_, h.held⟩
    show s.pushed ++ [job] = s.left.map Prod.snd ++ (s.workQueue ++ [job])
    rw [h.order, List.append_assoc]
  | tell _ hnotifies =>
    exact Accounted.notifies (s := { s with telling := s.telling - 1 }) ⟨h.order, h.held⟩ hnotifies
  | advance hworks => exact h.works hworks
  | notify hw hnotifies =>
    refine (h.setWorker ?_).notifies hnotifies
    rw [hw]
    rfl
  | wake hw => exact h.notifies (.some hw)

/-- In every state of every run, every job that was pushed has left the queue, in the order in
    which they were pushed, or is still queued; and those that workers took have been run once
    each, or a worker has them. When neither `start` nor `join` is under way and the pool is not
    active, all that were taken have been run. -/
theorem accounted (es : List (PoolEvent J size)) :
    AllStates step (fun s => s.Accounted ∧
      (s.stage = .idle → s.active = false → takenJobs s.left = s.done)) {} es := by
  have hinit : Staged ({} : Pool J size) ∧ Accounted ({} : Pool J size) := by
    refine ⟨staged_init, rfl, ?_⟩
    show (0 : Multiset J) = 0 + ∑ _w : Fin size, 0
    simp
  have hkeeps : ∀ (s : Pool J size) e t, s.Staged ∧ s.Accounted → s.step e = some t →
      t.Staged ∧ t.Accounted :=
    fun _ _ _ h hstep => ⟨h.1.step hstep, h.2.step h.1 hstep⟩
  refine AllStates.of_invariant hkeeps ?_ es hinit
  rintro s ⟨hstaged, haccounted⟩
  refine ⟨haccounted, fun hstage hactive => ?_⟩
  unfold Staged at hstaged
  rw [hstage] at hstaged
  have hnone : s.heldJobs = 0 := by
    refine Finset.sum_eq_zero fun w _ => ?_
    rw [hstaged.2 hactive w]
    rfl
  rw [haccounted.held, hnone, add_zero]

end Accounted

end Pool

end Algiz.Threading
