/-
  `ThreadPool`: jobs are added from any thread, and the workers take them.

  Every read and every write of `workQueue`, `newJobReady` and `jobsDone` is a step of its own, so
  the steps of the workers and of any number of calls of `add` interleave freely. The notification
  at the end of `add` and of a job wakes a blocked worker or nobody, and `wait` may wake without
  one: `wake` stands for either. `jobsDone` does not wrap; nobody runs 2^64 jobs.

  A worker clears `newJobReady` after it has taken a job, also when another job is queued. What
  keeps the pool going then is the count: its job, once done, lifts `jobsDone` above what the
  others have read of it. As long as at every such moment some other worker has read it, no job is
  stranded (`never_stranded`); as soon as nobody has, the workers' own next steps put all of them
  to sleep over the queue (`stranded_of_clear`).
-/
import Mathlib.Data.Fintype.Basic
import Mathlib.Logic.Function.Basic
import Algiz.Lib.Transition

namespace Algiz.Threading

open Algiz.Lib

/-- Where a worker stands in its loop, with its `last_jobs_done` as long as it is read. -/
inductive Worker (J : Type*) where
  /-- next it reads `jobsDone` for the first time -/
  | starting
  /-- at the predicate of `workCV.wait`: next it reads `newJobReady` -/
  | checking (lastJobsDone : Nat)
  /-- `newJobReady` was false: next it reads `jobsDone` -/
  | comparing (lastJobsDone : Nat)
  /-- the predicate was false: blocked in `workCV.wait` -/
  | blocked (lastJobsDone : Nat)
  /-- out of `wait`: next it calls `workQueue.tryTake()` -/
  | awake (lastJobsDone : Nat)
  /-- it has a job: next it clears `newJobReady` -/
  | taken (job : J)
  /-- it runs the job: next it counts it -/
  | running (job : J)
  /-- `tryTake` gave nothing: next it reads `jobsDone` -/
  | emptyHanded
  deriving DecidableEq

/-- An active `ThreadPool` with `size` workers that nobody joins. -/
structure ThreadPool (J : Type*) (size : Nat) where
  workQueue : List J := []
  newJobReady : Bool := false
  jobsDone : Nat := 0
  /-- the calls of `add` between `workQueue.push` and `newJobReady = true` -/
  adding : Nat := 0
  workers : Fin size → Worker J := fun _ => .starting

/-- The steps of the workers and of `add`. -/
inductive PoolStep (J : Type*) (size : Nat) where
  /-- a call of `add` pushes its job -/
  | push (job : J)
  /-- a call of `add` that has pushed its job sets `newJobReady` -/
  | setReady
  /-- a blocked worker is notified, or wakes of itself -/
  | wake (w : Fin size)
  /-- a worker that is not blocked goes on -/
  | advance (w : Fin size)

variable {J : Type*} {size : Nat}

namespace ThreadPool

def setWorker (s : ThreadPool J size) (w : Fin size) (x : Worker J) : ThreadPool J size :=
  { s with workers := Function.update s.workers w x }

/-- The next step of a worker in the loop of `start`. -/
def advance (s : ThreadPool J size) (w : Fin size) : Option (ThreadPool J size) :=
  match s.workers w with
  | .starting => some (s.setWorker w (.checking s.jobsDone))
  | .checking n => some (s.setWorker w (if s.newJobReady then .awake n else .comparing n))
  | .comparing n => some (s.setWorker w (if n < s.jobsDone then .awake n else .blocked n))
  | .blocked _ => none
  | .awake _ =>
    match s.workQueue with
    | [] => some (s.setWorker w .emptyHanded)
    | job :: rest => some ({ s with workQueue := rest }.setWorker w (.taken job))
  | .taken job => some ({ s with newJobReady := false }.setWorker w (.running job))
  | .running _ =>
    some ({ s with jobsDone := s.jobsDone + 1 }.setWorker w (.checking (s.jobsDone + 1)))
  | .emptyHanded => some (s.setWorker w (.checking s.jobsDone))

/-- One step; `none` if it cannot be taken. -/
def step (s : ThreadPool J size) : PoolStep J size → Option (ThreadPool J size)
  | .push job => some { s with workQueue := s.workQueue ++ [job], adding := s.adding + 1 }
  | .setReady =>
    if s.adding = 0 then none
    else some { s with newJobReady := true, adding := s.adding - 1 }
  | .wake w =>
    match s.workers w with
    | .blocked n => some (s.setWorker w (.checking n))
    | _ => none
  | .advance w => s.advance w

/-- The worker is blocked in `workCV.wait`, and its predicate is false. -/
def Asleep (s : ThreadPool J size) (w : Fin size) : Prop :=
  ∃ n, s.workers w = .blocked n ∧ s.newJobReady = false ∧ s.jobsDone ≤ n

/-- A job is queued, every `add` has set the flag for its job, and all workers are asleep. -/
def Stranded (s : ThreadPool J size) : Prop :=
  s.workQueue ≠ [] ∧ s.adding = 0 ∧ ∀ w, s.Asleep w

end ThreadPool

open ThreadPool

/-! ## What keeps the pool going -/

/-- The worker has read `jobsDone` and does not read it again before it finds the queue empty. -/
def Worker.Counting : Worker J → Prop
  | .starting | .emptyHanded => False
  | .checking _ | .comparing _ | .blocked _ | .awake _ | .taken _ | .running _ => True

/-- The worker looks into the queue, or lifts the count, before it can fall asleep. -/
def Worker.Up (jobsDone : Nat) : Worker J → Prop
  | .starting | .emptyHanded => False
  | .checking n | .comparing n | .blocked n => n < jobsDone
  | .awake _ | .taken _ | .running _ => True

/-- No worker has read a count that has not been reached. -/
def Worker.ReadBy (jobsDone : Nat) : Worker J → Prop
  | .checking n | .comparing n | .blocked n | .awake n => n ≤ jobsDone
  | .starting | .taken _ | .running _ | .emptyHanded => True

/-- If a worker clears `newJobReady` with a job still queued, and no `add` is about to set it
    again, some other worker has read the count. -/
def LeavesSomeone (s : ThreadPool J size) : PoolStep J size → Prop
  | .advance w => ∀ job, s.workers w = .taken job →
      s.workQueue = [] ∨ 0 < s.adding ∨ ∃ v, v ≠ w ∧ (s.workers v).Counting
  | .push _ | .setReady | .wake _ => True

/-- The invariant. When a job is queued and neither the flag is up nor about to be, two workers
    have read the count and one of the workers is up. -/
structure Covered (s : ThreadPool J size) : Prop where
  read : ∀ w, (s.workers w).ReadBy s.jobsDone
  two : s.workQueue ≠ [] → s.newJobReady = false → s.adding = 0 →
    ∃ v w, v ≠ w ∧ (s.workers v).Counting ∧ (s.workers w).Counting
  up : s.workQueue ≠ [] → s.newJobReady = false → s.adding = 0 →
    ∃ w, (s.workers w).Up s.jobsDone

/-- What has been read of the count is less than the next one. -/
theorem Worker.Counting.up_succ {x : Worker J} {n : Nat} (h : x.Counting) (hread : x.ReadBy n) :
    x.Up (n + 1) := by
  cases x with
  | starting => exact h
  | emptyHanded => exact h
  | checking | comparing | blocked => exact Nat.lt_succ_of_le hread
  | awake | taken | running => trivial

theorem Worker.ReadBy.succ {x : Worker J} {n : Nat} (h : x.ReadBy n) : x.ReadBy (n + 1) := by
  cases x with
  | checking | comparing | blocked | awake => exact Nat.le_succ_of_le h
  | starting | taken | running | emptyHanded => trivial

theorem not_stranded_of_covered {s : ThreadPool J size} (hsize : 0 < size) (hs : Covered s) :
    ¬ Stranded s := by
  rintro ⟨hqueue, hadding, hall⟩
  obtain ⟨-, -, hready, -⟩ := hall ⟨0, hsize⟩
  obtain ⟨w, hup⟩ := hs.up hqueue hready hadding
  obtain ⟨n, hblocked, -, hle⟩ := hall w
  rw [hblocked] at hup
  exact absurd hup (Nat.not_lt.mpr hle)

/-! ## One step -/

section Steps

variable {s t : ThreadPool J size}

@[simp] theorem setWorker_self (s : ThreadPool J size) (w : Fin size) (x : Worker J) :
    (s.setWorker w x).workers w = x := Function.update_self ..

@[simp] theorem setWorker_of_ne (s : ThreadPool J size) {v w : Fin size} (h : v ≠ w)
    (x : Worker J) : (s.setWorker w x).workers v = s.workers v := Function.update_of_ne h ..

/-- A property that the worker keeps is still the others' too. -/
theorem setWorker_mono {P : Worker J → Prop} {w : Fin size} {x : Worker J}
    (h : P (s.workers w) → P x) {v : Fin size} (hv : P (s.workers v)) :
    P ((s.setWorker w x).workers v) := by
  by_cases hvw : v = w
  · subst hvw
    rw [setWorker_self]
    exact h hv
  · rwa [setWorker_of_ne s hvw]

/-- A worker that goes on, and stays counting and up if it was. -/
theorem Covered.setWorker (hs : Covered s) {w : Fin size} {x : Worker J}
    (hread : x.ReadBy s.jobsDone) (hcounting : (s.workers w).Counting → x.Counting)
    (hup : (s.workers w).Up s.jobsDone → x.Up s.jobsDone) : Covered (s.setWorker w x) := by
  refine ⟨fun v => setWorker_mono (fun _ => hread) (hs.read v), ?_, ?_⟩
  · intro hqueue hready hadding
    obtain ⟨u, v, hne, hu, hv⟩ := hs.two hqueue hready hadding
    exact ⟨u, v, hne, setWorker_mono hcounting hu, setWorker_mono hcounting hv⟩
  · intro hqueue hready hadding
    obtain ⟨v, hv⟩ := hs.up hqueue hready hadding
    exact ⟨v, setWorker_mono hup hv⟩

/-- A job less in the queue. -/
theorem Covered.take (hs : Covered s) {job : J} {rest : List J} (h : s.workQueue = job :: rest) :
    Covered { s with workQueue := rest } := by
  have hsome : s.workQueue ≠ [] := by
    rw [h]
    exact List.cons_ne_nil _ _
  exact ⟨hs.read, fun _ => hs.two hsome, fun _ => hs.up hsome⟩

/-- A worker clears the flag. It is up itself; another one that has read the count must be
    there. -/
theorem Covered.clear (hs : Covered s) {w : Fin size} {job : J} (hw : s.workers w = .taken job)
    (hleaves : LeavesSomeone s (.advance w)) :
    Covered ({ s with newJobReady := false }.setWorker w (.running job)) := by
  have hread : ∀ v, (({ s with newJobReady := false }.setWorker w (.running job)).workers v).ReadBy
      s.jobsDone := fun v =>
    setWorker_mono (s := { s with newJobReady := false }) (fun _ => trivial) (hs.read v)
  refine ⟨hread, ?_, ?_⟩
  · intro hqueue _ hadding
    rcases hleaves job hw with hnil | hpos | ⟨v, hne, hv⟩
    · exact absurd hnil hqueue
    · have hzero : s.adding = 0 := hadding
      omega
    · refine ⟨v, w, hne, ?_, ?_⟩
      · rwa [setWorker_of_ne _ hne]
      · rw [setWorker_self]
        trivial
  · intro _ _ _
    refine ⟨w, ?_⟩
    rw [setWorker_self]
    trivial

/-- A worker counts its job. Whoever else has read the count is up now. -/
theorem Covered.finish (hs : Covered s) (w : Fin size) :
    Covered ({ s with jobsDone := s.jobsDone + 1 }.setWorker w (.checking (s.jobsDone + 1))) := by
  have hcounting : ∀ v, (s.workers v).Counting →
      (({ s with jobsDone := s.jobsDone + 1 }.setWorker w
        (.checking (s.jobsDone + 1))).workers v).Counting := fun v hv =>
    setWorker_mono (s := { s with jobsDone := s.jobsDone + 1 }) (fun _ => trivial) hv
  refine ⟨?_, ?_, ?_⟩
  · intro v
    exact setWorker_mono (s := { s with jobsDone := s.jobsDone + 1 })
      (P := Worker.ReadBy (s.jobsDone + 1)) (fun _ => Nat.le_refl _) (hs.read v).succ
  · intro hqueue hready hadding
    obtain ⟨u, v, hne, hu, hv⟩ := hs.two hqueue hready hadding
    exact ⟨u, v, hne, hcounting u hu, hcounting v hv⟩
  · intro hqueue hready hadding
    obtain ⟨u, v, hne, hu, hv⟩ := hs.two hqueue hready hadding
    -- one of the two is not the worker itself
    have hother : ∃ x, x ≠ w ∧ (s.workers x).Counting := by
      by_cases huw : u = w
      · exact ⟨v, fun hvw => hne (huw.trans hvw.symm), hv⟩
      · exact ⟨u, huw, hu⟩
    obtain ⟨x, hx, hcount⟩ := hother
    refine ⟨x, ?_⟩
    rw [setWorker_of_ne _ hx]
    exact hcount.up_succ (hs.read x)

theorem advance_covered (hs : Covered s) {w : Fin size} (hleaves : LeavesSomeone s (.advance w))
    (hstep : s.advance w = some t) : Covered t := by
  unfold ThreadPool.advance at hstep
  have hread := hs.read w
  cases hw : s.workers w with
  | starting =>
    rw [hw] at hstep
    obtain rfl := Option.some.inj hstep
    exact hs.setWorker (Nat.le_refl _) (fun _ => trivial)
      (fun hup => by rw [hw] at hup; exact hup.elim)
  | checking n =>
    rw [hw] at hstep hread
    obtain rfl := Option.some.inj hstep
    split
    · exact hs.setWorker hread (fun _ => trivial) (fun _ => trivial)
    · exact hs.setWorker hread (fun _ => trivial) (fun hup => by rwa [hw] at hup)
  | comparing n =>
    rw [hw] at hstep hread
    obtain rfl := Option.some.inj hstep
    split
    · exact hs.setWorker hread (fun _ => trivial) (fun _ => trivial)
    · exact hs.setWorker hread (fun _ => trivial) (fun hup => by rwa [hw] at hup)
  | blocked n =>
    rw [hw] at hstep
    exact nomatch hstep
  | awake n =>
    rw [hw] at hstep
    dsimp only at hstep
    split at hstep
    · rename_i hempty
      obtain rfl := Option.some.inj hstep
      refine ⟨fun v => setWorker_mono (fun _ => trivial) (hs.read v), ?_, ?_⟩
      · exact fun hqueue => absurd hempty hqueue
      · exact fun hqueue => absurd hempty hqueue
    · rename_i job rest hqueue
      obtain rfl := Option.some.inj hstep
      exact (hs.take hqueue).setWorker trivial (fun _ => trivial) (fun _ => trivial)
  | taken job =>
    rw [hw] at hstep
    obtain rfl := Option.some.inj hstep
    exact hs.clear hw hleaves
  | running job =>
    rw [hw] at hstep
    obtain rfl := Option.some.inj hstep
    exact hs.finish w
  | emptyHanded =>
    rw [hw] at hstep
    obtain rfl := Option.some.inj hstep
    exact hs.setWorker (Nat.le_refl _) (fun _ => trivial)
      (fun hup => by rw [hw] at hup; exact hup.elim)

theorem step_covered {e : PoolStep J size} (hs : Covered s) (hleaves : LeavesSomeone s e)
    (hstep : s.step e = some t) : Covered t := by
  cases e with
  | push job =>
    obtain rfl := Option.some.inj hstep
    refine ⟨hs.read, ?_, ?_⟩
    · exact fun _ _ hadding => absurd hadding (Nat.succ_ne_zero _)
    · exact fun _ _ hadding => absurd hadding (Nat.succ_ne_zero _)
  | setReady =>
    rw [ThreadPool.step] at hstep
    split at hstep
    · exact nomatch hstep
    · obtain rfl := Option.some.inj hstep
      exact ⟨hs.read, fun _ hready => Bool.noConfusion hready,
        fun _ hready => Bool.noConfusion hready⟩
  | wake w =>
    rw [ThreadPool.step] at hstep
    split at hstep
    · rename_i n hw
      obtain rfl := Option.some.inj hstep
      have hread := hs.read w
      rw [hw] at hread
      exact hs.setWorker hread (fun _ => trivial) (fun hup => by rwa [hw] at hup)
    · exact nomatch hstep
  | advance w => exact advance_covered hs hleaves hstep

end Steps

/-! ## Runs -/

/-- A pool that `start` has just made active, whatever an earlier run of it left in the flag and
    in the count. -/
def started (newJobReady : Bool) (jobsDone : Nat) : ThreadPool J size :=
  { newJobReady := newJobReady, jobsDone := jobsDone }

theorem covered_started (newJobReady : Bool) (jobsDone : Nat) :
    Covered (started newJobReady jobsDone : ThreadPool J size) :=
  ⟨fun _ => trivial, fun hqueue => absurd rfl hqueue, fun hqueue => absurd rfl hqueue⟩

/-- In every run in which no worker clears the flag over a queued job while nobody else has read
    the count, no job is stranded in any state. -/
theorem never_stranded (hsize : 0 < size) (newJobReady : Bool) (jobsDone : Nat)
    (es : List (PoolStep J size))
    (hall : AllSteps ThreadPool.step LeavesSomeone (started newJobReady jobsDone) es) :
    AllStates ThreadPool.step (fun s => ¬ Stranded s) (started newJobReady jobsDone) es :=
  AllStates.of_allSteps (fun _ _ _ hs hleaves hstep => step_covered hs hleaves hstep)
    (fun _ hs => not_stranded_of_covered hsize hs) (covered_started newJobReady jobsDone) hall

/-- A job is added, taken and done, and then another one. -/
theorem never_stranded_oneByOne :
    AllStates ThreadPool.step (fun s => ¬ Stranded s) (started false 0 : ThreadPool Nat 1)
      ([.advance 0, .push 1, .setReady] ++ List.replicate 4 (.advance 0) ++ [.push 2, .setReady] ++
        List.replicate 4 (.advance 0)) :=
  never_stranded (by decide) false 0 _ (by
    simp [AllSteps, ThreadPool.step, ThreadPool.advance, LeavesSomeone, started,
      ThreadPool.setWorker, List.replicate])

/-- Two jobs are added before the only worker takes one. It clears the flag, does its job, and
    waits; the second job stays in the queue. -/
theorem not_never_stranded_twoJobs :
    ¬ AllStates ThreadPool.step (fun s => ¬ Stranded s) (started false 0 : ThreadPool Nat 1)
      ([.advance 0, .push 1, .setReady, .push 2, .setReady] ++ List.replicate 6 (.advance 0)) := by
  intro hall
  refine hall.exec (t := _) rfl ⟨?_, rfl, fun w => ⟨1, ?_, rfl, Nat.le_refl _⟩⟩
  · exact List.cons_ne_nil 2 []
  · have hw : w = 0 := Subsingleton.elim _ _
    rw [hw]
    rfl

/-! ## Falling asleep -/

section Asleep

variable {s : ThreadPool J size}

/-- The worker has just read the count, or is about to. -/
def Idle (s : ThreadPool J size) (w : Fin size) : Prop :=
  s.workers w = .checking s.jobsDone ∨ ¬ (s.workers w).Counting

theorem setWorker_setWorker (s : ThreadPool J size) (w : Fin size) (x y : Worker J) :
    (s.setWorker w x).setWorker w y = s.setWorker w y := by
  simp [ThreadPool.setWorker]

/-- With the flag down such a worker goes to sleep. -/
theorem exec_asleep (hready : s.newJobReady = false) {w : Fin size} (hw : Idle s w) :
    ∃ n, exec ThreadPool.step s (List.replicate n (.advance w)) =
      some (s.setWorker w (.blocked s.jobsDone)) := by
  have hcompare : ∀ s' : ThreadPool J size, s'.workers w = .comparing s'.jobsDone →
      s'.advance w = some (s'.setWorker w (.blocked s'.jobsDone)) := by
    intro s' hw'
    rw [ThreadPool.advance, hw']
    dsimp only
    rw [if_neg (Nat.lt_irrefl _)]
  have htwo : ∀ s' : ThreadPool J size, s'.newJobReady = false →
      s'.workers w = .checking s'.jobsDone →
      exec ThreadPool.step s' (List.replicate 2 (.advance w)) =
        some (s'.setWorker w (.blocked s'.jobsDone)) := by
    intro s' hready' hw'
    have htest : s'.advance w = some (s'.setWorker w (.comparing s'.jobsDone)) := by
      rw [ThreadPool.advance, hw']
      simp [hready']
    have hlast := hcompare (s'.setWorker w (.comparing s'.jobsDone)) (setWorker_self ..)
    rw [setWorker_setWorker] at hlast
    simp only [List.replicate, exec, ThreadPool.step, htest, Option.bind_some]
    rw [hlast]
    rfl
  rcases hw with hw | hw
  · exact ⟨2, htwo s hready hw⟩
  · have hload : s.advance w = some (s.setWorker w (.checking s.jobsDone)) := by
      rw [ThreadPool.advance]
      cases hx : s.workers w with
      | starting => rfl
      | emptyHanded => rfl
      | checking | comparing | blocked | awake | taken | running =>
        rw [hx] at hw
        exact absurd trivial hw
    have hrest := htwo (s.setWorker w (.checking s.jobsDone)) hready (setWorker_self ..)
    rw [setWorker_setWorker] at hrest
    refine ⟨3, ?_⟩
    rw [List.replicate, exec]
    show ((s.advance w).bind fun t => _) = _
    rw [hload]
    exact hrest

/-- These workers are asleep. -/
def putToSleep (s : ThreadPool J size) (ws : List (Fin size)) : ThreadPool J size :=
  { s with workers := fun w => if w ∈ ws then .blocked s.jobsDone else s.workers w }

/-- All of them do, one after another. -/
theorem exec_allAsleep (hready : s.newJobReady = false) (ws : List (Fin size))
    (hidle : ∀ w ∈ ws, Idle s w) :
    ∃ es, (∀ e ∈ es, ∃ w, e = .advance w) ∧
      exec ThreadPool.step s es = some (putToSleep s ws) := by
  induction ws with
  | nil => exact ⟨[], fun _ he => absurd he List.not_mem_nil, by simp [exec, putToSleep]⟩
  | cons w ws ih =>
    obtain ⟨es, hes, hexec⟩ := ih fun v hv => hidle v (List.mem_cons_of_mem w hv)
    by_cases hmem : w ∈ ws
    · refine ⟨es, hes, hexec.trans ?_⟩
      unfold putToSleep
      congr 2
      funext v
      by_cases hv : v = w
      · simp [hv, hmem]
      · simp [hv]
    · have hw : (putToSleep s ws).workers w = s.workers w := if_neg hmem
      have hidle' : Idle (putToSleep s ws) w := by
        have := hidle w List.mem_cons_self
        unfold Idle at this ⊢
        rw [hw]
        exact this
      obtain ⟨n, hlast⟩ := exec_asleep (s := putToSleep s ws) hready hidle'
      refine ⟨es ++ List.replicate n (.advance w), ?_, (exec_append hexec hlast).trans ?_⟩
      · intro e he
        rcases List.mem_append.mp he with he | he
        · exact hes e he
        · exact ⟨w, (List.mem_replicate.mp he).2⟩
      · unfold ThreadPool.setWorker putToSleep
        congr 2
        funext v
        by_cases hv : v = w
        · simp [hv]
        · simp [hv]

/-- A worker clears the flag over a queued job and nobody else has read the count: without
    another `add`, the workers' own next steps leave the job stranded. -/
theorem stranded_of_clear {t : ThreadPool J size} {w : Fin size} (hstep : s.advance w = some t)
    (hleft : ¬ LeavesSomeone s (.advance w)) :
    ∃ es u, (∀ e ∈ es, ∃ v, e = .advance v) ∧ exec ThreadPool.step t es = some u ∧ Stranded u := by
  unfold LeavesSomeone at hleft
  push Not at hleft
  obtain ⟨job, hw, hqueue, hadding, hnobody⟩ := hleft
  have hclear : s.advance w =
      some ({ s with newJobReady := false }.setWorker w (.running job)) := by
    rw [ThreadPool.advance, hw]
  obtain rfl := Option.some.inj (hclear.symm.trans hstep)
  -- the worker counts its job, and then nobody is left to find the count higher
  generalize hc : ({ s with newJobReady := false, jobsDone := s.jobsDone + 1 } :
    ThreadPool J size).setWorker w (.checking (s.jobsDone + 1)) = c
  have hfinish : ({ s with newJobReady := false }.setWorker w (.running job)).advance w =
      some c := by
    rw [ThreadPool.advance, setWorker_self, ← hc]
    simp [ThreadPool.setWorker]
  have hidle : ∀ v ∈ List.finRange size, Idle c v := by
    intro v _
    by_cases hv : v = w
    · refine Or.inl ?_
      rw [← hc, hv, setWorker_self]
      rfl
    · refine Or.inr ?_
      rw [← hc, setWorker_of_ne _ hv]
      exact hnobody v hv
  obtain ⟨es, hes, hexec⟩ := exec_allAsleep (hc ▸ rfl) (List.finRange size) hidle
  refine ⟨.advance w :: es, putToSleep c (List.finRange size), ?_, ?_, ?_, ?_, ?_⟩
  · intro e he
    rcases List.mem_cons.mp he with rfl | he
    · exact ⟨w, rfl⟩
    · exact hes e he
  · rw [exec]
    show (ThreadPool.advance _ w).bind _ = _
    rw [hfinish]
    exact hexec
  · subst hc
    exact hqueue
  · subst hc
    exact Nat.le_zero.mp hadding
  · intro v
    refine ⟨c.jobsDone, ?_, hc ▸ rfl, Nat.le_refl _⟩
    exact if_pos (List.mem_finRange v)

end Asleep

end Algiz.Threading
