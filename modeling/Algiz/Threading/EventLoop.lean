/-
  `EventLoop`: actions are scheduled from any thread, and the loop thread runs each at its time.

  Every access to what the threads share is a step of its own (`stopping` and `running` are read
  together), so the steps of the loop thread and of any number of calls of `schedule` and `stop`
  interleave freely; an action that runs may make calls itself. Threads are named by `Option ι`,
  where `none` is the loop thread. The clock may show anything at any time. `wake` stands for a
  notification, for waking without one, and for the end of a `wait_for`.

  The loop thread looks at the first action with `actionsMutex` locked. If that is not due it goes
  on to wait, and the predicate of the wait locks the mutex again (`relocks_of_early`). As long as
  the first action is due whenever it is looked at, nobody locks a mutex twice, and the actions
  are run once each, when they are due, the earliest first (`sound_of_due`).
-/
import Mathlib.Data.List.Nodup
import Mathlib.Data.List.Range
import Algiz.Lib.Mutex
import Algiz.Lib.Transition

namespace Algiz.Threading

open Algiz.Lib

/-! ## The loop thread and the calls -/

/-- A scheduled action. They are numbered in the order in which they come to the map. -/
structure Action where
  id : Nat
  point : Int
  deriving DecidableEq

/-- `actions.emplace`: a key goes behind those that are equal. -/
def emplace (a : Action) : List Action → List Action
  | [] => [a]
  | b :: rest => if a.point < b.point then a :: b :: rest else b :: emplace a rest

/-- An action that has been taken out: what the clock showed when it was looked at, and what was
    left in the map. -/
structure Turn where
  action : Action
  now : Int
  left : List Action

/-- Where a thread stands in a call. -/
inductive Call where
  /-- in no call -/
  | idle
  /-- `schedule`: next it reads `stopping` and `running` -/
  | scheduling (point : Int)
  | locking (point : Int)
  /-- it has the lock -/
  | emplacing (point : Int)
  | unlocking
  /-- `stop`: next it reads `running` -/
  | stopping
  | setting
  /-- at `thread.join()`; the loop thread does not come back from there -/
  | joining
  | joined
  deriving DecidableEq

/-- Where the loop thread stands in `cv.wait` or `cv.wait_for`. `last` is whether the time is up. -/
inductive Phase where
  /-- next it locks `cvMutex` -/
  | entering
  /-- at the predicate: next it locks `actionsMutex` -/
  | checking (last : Bool)
  /-- in the predicate, with both locked -/
  | reading (last : Bool)
  /-- the predicate was false -/
  | sleeping
  | blocked
  /-- next it locks `cvMutex` again -/
  | woken (last : Bool)
  | leaving
  deriving DecidableEq

/-- Where the loop thread stands. -/
inductive Place where
  /-- there is none, or it has ended -/
  | finished
  /-- at the condition of `while` -/
  | head
  | locking
  /-- it has the lock: next it looks at the first action and at the clock -/
  | looking
  /-- there is no action -/
  | unlocking
  /-- in `awaitNewAction`, or in `awaitNextAction` for an action and what the clock showed -/
  | awaiting (next : Option (Action × Int)) (phase : Phase)
  /-- back from `awaitNextAction` -/
  | awaited (first : Action) (now : Int)
  | taking (first : Action) (now : Int)
  | releasing (turn : Turn)
  | calling (turn : Turn)
  /-- in an action, which may be in a call -/
  | running (call : Call)

/-- `EventLoop` -/
structure EventLoop (ι : Type*) where
  actions : List Action := []
  actionsMutex : Mutex (Option ι) := {}
  cvMutex : Mutex (Option ι) := {}
  stopping : Bool := false
  running : Bool := false
  place : Place := .finished
  calls : ι → Call := fun _ => .idle
  /-- what `system_clock::now()` shows -/
  clock : Int := 0
  /-- how many actions have come to the map -/
  scheduled : Nat := 0
  /-- the actions that have been called, in order -/
  ran : List Turn := []

/-- The steps of the threads and of the clock. -/
inductive LoopStep (ι : Type*) where
  | start
  /-- the loop thread goes on -/
  | loop
  /-- the loop thread leaves the state of being blocked; `last` if the time is up -/
  | wake (last : Bool)
  /-- a thread calls `schedule` -/
  | schedule (t : Option ι) (point : Int)
  /-- a thread calls `stop` -/
  | stop (t : Option ι)
  /-- a thread goes on with its call -/
  | advance (t : Option ι)
  /-- the clock shows another time -/
  | clock (now : Int)

namespace EventLoop

variable {ι : Type*} [DecidableEq ι]

/-- The thread's call. The loop thread makes calls in an action only. -/
def callOf (s : EventLoop ι) : Option ι → Option Call
  | some i => some (s.calls i)
  | none => match s.place with
    | .running call => some call
    | _ => none

def setCall (s : EventLoop ι) (call : Call) : Option ι → EventLoop ι
  | some i => { s with calls := Function.update s.calls i call }
  | none => { s with place := .running call }

/-- The next step of a thread in its call. Where `stop` throws, the call is over. -/
def advanceCall (s : EventLoop ι) (t : Option ι) : Call → Option (EventLoop ι × Call)
  | .idle => none
  | .scheduling point =>
    if s.stopping || !s.running then some (s, .idle) else some (s, .locking point)
  | .locking point =>
    (s.actionsMutex.lock t).map fun m => ({ s with actionsMutex := m }, .emplacing point)
  | .emplacing point =>
    some ({ s with
      actions := emplace ⟨s.scheduled, point⟩ s.actions
      scheduled := s.scheduled + 1 }, .unlocking)
  | .unlocking => some ({ s with actionsMutex := s.actionsMutex.unlock }, .idle)
  | .stopping => some (s, if s.running then .setting else .idle)
  | .setting => some ({ s with stopping := true }, .joining)
  | .joining =>
    match s.place with
    | .finished => some (s, .joined)
    | _ => none
  | .joined => some ({ s with running := false }, .idle)

/-- The predicates of `awaitNewAction` and of `awaitNextAction`. -/
def awaited (s : EventLoop ι) (next : Option (Action × Int)) : Bool :=
  s.stopping || match next with
    | none => !s.actions.isEmpty
    | some (first, _) => first.point ≤ s.clock

/-- The next step of the loop thread in `awaitNewAction` or `awaitNextAction`. -/
def advanceWait (s : EventLoop ι) (next : Option (Action × Int)) : Phase → Option (EventLoop ι)
  | .entering => (s.cvMutex.lock none).map fun m =>
      { s with cvMutex := m, place := .awaiting next (.checking false) }
  | .checking last => (s.actionsMutex.lock none).map fun m =>
      { s with actionsMutex := m, place := .awaiting next (.reading last) }
  | .reading last => some { s with
      actionsMutex := s.actionsMutex.unlock
      place := .awaiting next (if s.awaited next || last then .leaving else .sleeping) }
  | .sleeping => some { s with cvMutex := s.cvMutex.unlock, place := .awaiting next .blocked }
  | .blocked => none
  | .woken last => (s.cvMutex.lock none).map fun m =>
      { s with cvMutex := m, place := .awaiting next (.checking last) }
  | .leaving => some { s with
      cvMutex := s.cvMutex.unlock
      place := match next with
        | none => .head
        | some (first, now) => .awaited first now }

/-- The next step of the loop thread. -/
def advanceLoop (s : EventLoop ι) : Option (EventLoop ι) :=
  match s.place with
  | .finished => none
  | .head => some { s with place := if s.running && !s.stopping then .locking else .finished }
  | .locking => (s.actionsMutex.lock none).map fun m =>
      { s with actionsMutex := m, place := .looking }
  | .looking =>
    match s.actions with
    | [] => some { s with place := .unlocking }
    | first :: _ => some { s with
        place := if s.clock < first.point then .awaiting (some (first, s.clock)) .entering
          else .taking first s.clock }
  | .unlocking => some { s with
      actionsMutex := s.actionsMutex.unlock
      place := .awaiting none .entering }
  | .awaiting next phase => s.advanceWait next phase
  | .awaited first now =>
    if s.stopping then some { s with actionsMutex := s.actionsMutex.unlock, place := .finished }
    else some { s with place := .taking first now }
  | .taking first now =>
    let left := s.actions.erase first
    some { s with actions := left, place := .releasing ⟨first, now, left⟩ }
  | .releasing turn => some { s with
      actionsMutex := s.actionsMutex.unlock
      place := .calling turn }
  | .calling turn => some { s with ran := s.ran ++ [turn], place := .running .idle }
  | .running .idle => some { s with place := .head }
  | .running _ => none

/-- One step; `none` if it cannot be taken. Where a mutex has been locked by its owner nothing is
    defined any more. -/
def step (s : EventLoop ι) (e : LoopStep ι) : Option (EventLoop ι) :=
  if s.actionsMutex.relocked then none
  else match e with
    | .start =>
      match s.place with
      | .finished =>
        if s.running then none
        else some { s with stopping := false, running := true, place := .head }
      | _ => none
    | .loop => s.advanceLoop
    | .wake last =>
      match s.place with
      | .awaiting next .blocked =>
        if last && next.isNone then none
        else some { s with place := .awaiting next (.woken last) }
      | _ => none
    | .schedule t point =>
      if s.callOf t = some .idle then some (s.setCall (.scheduling point) t) else none
    | .stop t => if s.callOf t = some .idle then some (s.setCall .stopping t) else none
    | .advance t => (s.callOf t).bind fun call =>
        (s.advanceCall t call).map fun (s', call') => s'.setCall call' t
    | .clock now => some { s with clock := now }

/-- A loop that has not been started. -/
def new (clock : Int) : EventLoop ι := { clock }

/-! ## What is expected -/

/-- Nobody locks `actionsMutex` twice. No action is called more than once, each has been looked at
    when the clock showed its time, and the actions that were left in the map are not earlier. -/
structure Sound (s : EventLoop ι) : Prop where
  locked : s.actionsMutex.relocked = false
  once : (s.ran.map Turn.action).Nodup
  due : ∀ turn ∈ s.ran, turn.action.point ≤ turn.now
  first : ∀ turn ∈ s.ran, ∀ other ∈ turn.left, turn.action.point ≤ other.point

/-- When the loop thread looks at the first action, that is due. -/
def DueWhenLookedAt (s : EventLoop ι) : LoopStep ι → Prop
  | .loop => ∀ first rest, s.place = .looking → s.actions = first :: rest → first.point ≤ s.clock
  | _ => True

end EventLoop

/-! ## The map -/

theorem emplace_perm (a : Action) (actions : List Action) :
    (emplace a actions).Perm (a :: actions) := by
  induction actions with
  | nil => exact List.Perm.refl _
  | cons b rest ih =>
    unfold emplace
    split
    · exact List.Perm.refl _
    · exact (ih.cons b).trans (List.Perm.swap a b rest)

theorem mem_emplace {a b : Action} {actions : List Action} :
    b ∈ emplace a actions ↔ b = a ∨ b ∈ actions := by
  rw [(emplace_perm a actions).mem_iff, List.mem_cons]

/-- The map stays in order. -/
theorem emplace_sorted (a : Action) {actions : List Action}
    (h : actions.Pairwise fun b c => b.point ≤ c.point) :
    (emplace a actions).Pairwise fun b c => b.point ≤ c.point := by
  induction actions with
  | nil => exact List.pairwise_singleton _ a
  | cons b rest ih =>
    obtain ⟨hfirst, hrest⟩ := List.pairwise_cons.mp h
    unfold emplace
    split
    · rename_i hlt
      refine List.pairwise_cons.mpr ⟨fun c hc => ?_, h⟩
      rcases List.mem_cons.mp hc with rfl | hc
      · exact Int.le_of_lt hlt
      · have hle := hfirst c hc
        omega
    · rename_i hnot
      refine List.pairwise_cons.mpr ⟨fun c hc => ?_, ih hrest⟩
      rcases mem_emplace.mp hc with rfl | hc
      · omega
      · exact hfirst c hc

/-! ## Who holds what -/

/-- In these places of a call `actionsMutex` is held. -/
def Call.Holds : Call → Prop
  | .emplacing _ | .unlocking => True
  | _ => False

/-- In these places of the loop thread `actionsMutex` is held. -/
def Place.Holds : Place → Prop
  | .looking | .unlocking | .awaited _ _ | .taking _ _ | .releasing _ => True
  | .awaiting _ (.reading _) => True
  | .running call => call.Holds
  | _ => False

/-- In these places of the loop thread `cvMutex` is held. -/
def Place.HoldsCv : Place → Prop
  | .awaiting _ (.checking _) | .awaiting _ (.reading _) => True
  | .awaiting _ .sleeping | .awaiting _ .leaving => True
  | _ => False

/-- The action that has been taken out of the map and not been called yet. -/
def Place.carried : Place → List Action
  | .releasing turn | .calling turn => [turn.action]
  | _ => []

/-- The clock showed the action's time, and no action that was left is earlier. -/
structure Turn.Fair (turn : Turn) : Prop where
  due : turn.action.point ≤ turn.now
  first : ∀ other ∈ turn.left, turn.action.point ≤ other.point

/-- What the loop thread relies on where it stands. It does not wait for an action. -/
def Place.Ok (actions : List Action) : Place → Prop
  | .awaiting (some _) _ | .awaited _ _ => False
  | .taking first now => first.point ≤ now ∧ ∃ rest, actions = first :: rest
  | .releasing turn | .calling turn => turn.Fair
  | _ => True

/-- Only a thread that holds the mutex relies on what is in the map. -/
theorem Place.Ok.of_not_holds {actions : List Action} {place : Place} (h : place.Ok actions)
    (hholds : ¬ place.Holds) (actions' : List Action) : place.Ok actions' := by
  cases place with
  | taking first now => exact absurd trivial hholds
  | awaiting next phase => cases next <;> exact h
  | _ => exact h

namespace EventLoop

section Invariant

variable {ι : Type*} {s : EventLoop ι}

/-- The threads that hold `actionsMutex`. -/
def Inside (s : EventLoop ι) : Option ι → Prop
  | none => s.place.Holds
  | some i => (s.calls i).Holds

/-- The thread that holds `cvMutex`. -/
def InsideCv (s : EventLoop ι) (t : Option ι) : Prop := t = none ∧ s.place.HoldsCv

/-- The invariant. -/
structure Inv (s : EventLoop ι) : Prop where
  mutex : s.actionsMutex.Agrees s.Inside
  cv : s.cvMutex.Agrees s.InsideCv
  place : s.place.Ok s.actions
  sorted : s.actions.Pairwise fun a b => a.point ≤ b.point
  accounted : ((s.ran.map Turn.action ++ s.place.carried ++ s.actions).map Action.id).Perm
    (List.range s.scheduled)
  fair : ∀ turn ∈ s.ran, turn.Fair

theorem sound_of_inv (hs : Inv s) : Sound s := by
  have hids := hs.accounted.nodup_iff.mpr List.nodup_range
  rw [List.append_assoc, List.map_append] at hids
  have honce : (s.ran.map Turn.action).Nodup :=
    List.Nodup.of_map Action.id (List.nodup_append.mp hids).1
  exact ⟨hs.mutex.once, honce, fun turn hturn => (hs.fair turn hturn).due,
    fun turn hturn => (hs.fair turn hturn).first⟩

theorem inv_new (clock : Int) : Inv (new clock : EventLoop ι) := by
  refine ⟨.new ?_, .new ?_, trivial, List.Pairwise.nil, List.Perm.refl _, ?_⟩
  · rintro (_ | i) hinside
    · exact hinside
    · exact hinside
  · exact fun _ hinside => hinside.2
  · exact fun _ hturn => absurd hturn List.not_mem_nil

/-- The flags and the clock do not matter. -/
theorem Inv.flags (hs : Inv s) (stopping running : Bool) (clock : Int) :
    Inv { s with stopping, running, clock } :=
  ⟨hs.mutex, hs.cv, hs.place, hs.sorted, hs.accounted, hs.fair⟩

end Invariant

/-! ## The loop thread -/

section Loop

variable {ι : Type*} {s t : EventLoop ι} {here there : Place}

theorem inside_place (s : EventLoop ι) (there : Place) :
    Mutex.OnlyMoves none s.Inside { s with place := there }.Inside := by
  rintro (_ | i) hne
  · exact absurd rfl hne
  · exact Iff.rfl

theorem insideCv_place (s : EventLoop ι) (there : Place) :
    Mutex.OnlyMoves none s.InsideCv { s with place := there }.InsideCv :=
  fun _ hne => ⟨fun h => absurd h.1 hne, fun h => absurd h.1 hne⟩

theorem inside_none (hhere : s.place = here) : s.Inside none ↔ here.Holds := by
  rw [Inside, hhere]

theorem insideCv_none (hhere : s.place = here) : s.InsideCv none ↔ here.HoldsCv := by
  rw [InsideCv, hhere]
  exact and_iff_right rfl

/-- `actionsMutex` is held as before. -/
theorem Inv.keeps (hs : Inv s) (hhere : s.place = here) (hholds : there.Holds ↔ here.Holds) :
    s.actionsMutex.Agrees { s with place := there }.Inside :=
  hs.mutex.stay (inside_place s there) (hholds.trans (inside_none hhere).symm)

/-- `cvMutex` is held as before. -/
theorem Inv.keepsCv (hs : Inv s) (hhere : s.place = here)
    (hholds : there.HoldsCv ↔ here.HoldsCv) :
    s.cvMutex.Agrees { s with place := there }.InsideCv :=
  hs.cv.stay (insideCv_place s there)
    ((and_iff_right rfl).trans (hholds.trans (insideCv_none hhere).symm))

/-- The loop thread goes to another place, with what that takes of the mutexes. -/
theorem Inv.goto (hs : Inv s) (hhere : s.place = here) {m c : Mutex (Option ι)}
    (hmutex : m.Agrees { s with place := there }.Inside)
    (hcv : c.Agrees { s with place := there }.InsideCv) (hok : there.Ok s.actions)
    (hcarried : there.carried = here.carried) :
    Inv { s with actionsMutex := m, cvMutex := c, place := there } := by
  refine ⟨hmutex, hcv, hok, hs.sorted, ?_, hs.fair⟩
  have haccounted := hs.accounted
  rw [hhere, ← hcarried] at haccounted
  exact haccounted

/-- A step that takes neither mutex and gives none up. -/
theorem Inv.pass (hs : Inv s) (hhere : s.place = here) (hholds : there.Holds ↔ here.Holds)
    (hcv : there.HoldsCv ↔ here.HoldsCv) (hok : there.Ok s.actions)
    (hcarried : there.carried = here.carried) : Inv { s with place := there } :=
  hs.goto hhere (hs.keeps hhere hholds) (hs.keepsCv hhere hcv) hok hcarried

/-- A step that unlocks `actionsMutex`. -/
theorem Inv.unlock (hs : Inv s) (hhere : s.place = here) (hbefore : here.Holds)
    (hafter : ¬ there.Holds) (hcv : there.HoldsCv ↔ here.HoldsCv) (hok : there.Ok s.actions)
    (hcarried : there.carried = here.carried) :
    Inv { s with actionsMutex := s.actionsMutex.unlock, place := there } :=
  hs.goto hhere (hs.mutex.leave (inside_place s there) ((inside_none hhere).mpr hbefore) hafter)
    (hs.keepsCv hhere hcv) hok hcarried

/-- A step that unlocks `cvMutex`. -/
theorem Inv.unlockCv (hs : Inv s) (hhere : s.place = here) (hbefore : here.HoldsCv)
    (hafter : ¬ there.HoldsCv) (hholds : there.Holds ↔ here.Holds) (hok : there.Ok s.actions)
    (hcarried : there.carried = here.carried) :
    Inv { s with cvMutex := s.cvMutex.unlock, place := there } :=
  hs.goto hhere (hs.keeps hhere hholds)
    (hs.cv.leave (insideCv_place s there) ((insideCv_none hhere).mpr hbefore) fun h => hafter h.2)
    hok hcarried

/-- The first action is taken out of the map. -/
theorem Inv.take (hs : Inv s) {first : Action} {now : Int} (hhere : s.place = .taking first now) :
    Inv { s with
      actions := s.actions.erase first
      place := .releasing ⟨first, now, s.actions.erase first⟩ } := by
  have hok := hs.place
  rw [hhere] at hok
  obtain ⟨hdue, rest, hactions⟩ := hok
  have hsorted := hs.sorted
  rw [hactions] at hsorted
  obtain ⟨hfirst, hrest⟩ := List.pairwise_cons.mp hsorted
  have herase : s.actions.erase first = rest := by rw [hactions, List.erase_cons_head]
  rw [herase]
  refine ⟨hs.keeps hhere Iff.rfl, hs.keepsCv hhere Iff.rfl, ⟨hdue, hfirst⟩, hrest, ?_, hs.fair⟩
  have haccounted := hs.accounted
  rw [hhere, hactions] at haccounted
  show ((s.ran.map Turn.action ++ [first] ++ rest).map Action.id).Perm _
  rwa [List.append_assoc, List.singleton_append, ← List.append_nil (s.ran.map Turn.action)]

/-- The action that has been taken out is called. -/
theorem Inv.call (hs : Inv s) {turn : Turn} (hhere : s.place = .calling turn) :
    Inv { s with ran := s.ran ++ [turn], place := .running .idle } := by
  have hfair := hs.place
  rw [hhere] at hfair
  refine ⟨hs.keeps hhere Iff.rfl, hs.keepsCv hhere Iff.rfl, trivial, hs.sorted, ?_, ?_⟩
  · have haccounted := hs.accounted
    rw [hhere] at haccounted
    have hran : (s.ran ++ [turn]).map Turn.action = s.ran.map Turn.action ++ [turn.action] :=
      List.map_append
    show (((s.ran ++ [turn]).map Turn.action ++ [] ++ s.actions).map Action.id).Perm _
    rwa [hran, List.append_nil]
  · intro other hother
    rcases List.mem_append.mp hother with hran | hnew
    · exact hs.fair other hran
    · rwa [List.mem_singleton.mp hnew]

variable [DecidableEq ι]

/-- A step that locks `actionsMutex`. -/
theorem Inv.lock (hs : Inv s) (hhere : s.place = here) {m : Mutex (Option ι)}
    (hlock : s.actionsMutex.lock none = some m) (hbefore : ¬ here.Holds) (hafter : there.Holds)
    (hcv : there.HoldsCv ↔ here.HoldsCv) (hok : there.Ok s.actions)
    (hcarried : there.carried = here.carried) :
    Inv { s with actionsMutex := m, place := there } :=
  hs.goto hhere
    (hs.mutex.enter (inside_place s there) (mt (inside_none hhere).mp hbefore) hafter hlock)
    (hs.keepsCv hhere hcv) hok hcarried

/-- A step that locks `cvMutex`. -/
theorem Inv.lockCv (hs : Inv s) (hhere : s.place = here) {c : Mutex (Option ι)}
    (hlock : s.cvMutex.lock none = some c) (hbefore : ¬ here.HoldsCv) (hafter : there.HoldsCv)
    (hholds : there.Holds ↔ here.Holds) (hok : there.Ok s.actions)
    (hcarried : there.carried = here.carried) : Inv { s with cvMutex := c, place := there } :=
  hs.goto hhere (hs.keeps hhere hholds)
    (hs.cv.enter (insideCv_place s there) (mt (insideCv_none hhere).mp hbefore) ⟨rfl, hafter⟩ hlock)
    hok hcarried

/-- The loop thread goes on in `awaitNewAction`. -/
theorem advanceWait_inv (hs : Inv s) {next : Option (Action × Int)} {phase : Phase}
    (hhere : s.place = .awaiting next phase) (h : s.advanceWait next phase = some t) : Inv t := by
  have hok := hs.place
  rw [hhere] at hok
  cases next with
  | some next => exact hok.elim
  | none =>
    unfold advanceWait at h
    cases phase with
    | entering =>
      obtain ⟨c, hlock, rfl⟩ := Option.map_eq_some_iff.mp h
      exact hs.lockCv hhere hlock id trivial Iff.rfl trivial rfl
    | checking last =>
      obtain ⟨m, hlock, rfl⟩ := Option.map_eq_some_iff.mp h
      exact hs.lock hhere hlock id trivial Iff.rfl trivial rfl
    | reading last =>
      obtain rfl := Option.some.inj h
      split
      · exact hs.unlock hhere trivial id Iff.rfl trivial rfl
      · exact hs.unlock hhere trivial id Iff.rfl trivial rfl
    | sleeping =>
      obtain rfl := Option.some.inj h
      exact hs.unlockCv hhere trivial id Iff.rfl trivial rfl
    | blocked => cases h
    | woken last =>
      obtain ⟨c, hlock, rfl⟩ := Option.map_eq_some_iff.mp h
      exact hs.lockCv hhere hlock id trivial Iff.rfl trivial rfl
    | leaving =>
      obtain rfl := Option.some.inj h
      exact hs.unlockCv hhere trivial id Iff.rfl trivial rfl

/-- The loop thread goes on. An action that it looks at is due. -/
theorem advanceLoop_inv (hs : Inv s) (hdue : DueWhenLookedAt s .loop)
    (h : s.advanceLoop = some t) : Inv t := by
  unfold advanceLoop at h
  have hok := hs.place
  cases hhere : s.place with
  | finished =>
    rw [hhere] at h
    cases h
  | head =>
    rw [hhere] at h
    obtain rfl := Option.some.inj h
    split
    · exact hs.pass hhere Iff.rfl Iff.rfl trivial rfl
    · exact hs.pass hhere Iff.rfl Iff.rfl trivial rfl
  | locking =>
    rw [hhere] at h
    obtain ⟨m, hlock, rfl⟩ := Option.map_eq_some_iff.mp h
    exact hs.lock hhere hlock id trivial Iff.rfl trivial rfl
  | looking =>
    rw [hhere] at h
    cases hactions : s.actions with
    | nil =>
      rw [hactions] at h
      obtain rfl := Option.some.inj h
      exact hactions ▸ hs.pass hhere Iff.rfl Iff.rfl trivial rfl
    | cons first rest =>
      rw [hactions] at h
      have hpoint : first.point ≤ s.clock := hdue first rest hhere hactions
      obtain rfl := Option.some.inj h
      rw [if_neg (Int.not_lt.mpr hpoint)]
      exact hactions ▸ hs.pass hhere Iff.rfl Iff.rfl ⟨hpoint, rest, hactions⟩ rfl
  | unlocking =>
    rw [hhere] at h
    obtain rfl := Option.some.inj h
    exact hs.unlock hhere trivial id Iff.rfl trivial rfl
  | awaiting next phase =>
    rw [hhere] at h
    exact advanceWait_inv hs hhere h
  | awaited first now =>
    -- by the invariant it does not wait for an action
    rw [hhere] at hok
    exact hok.elim
  | taking first now =>
    rw [hhere] at h
    obtain rfl := Option.some.inj h
    exact hs.take hhere
  | releasing turn =>
    rw [hhere] at h hok
    obtain rfl := Option.some.inj h
    exact hs.unlock hhere trivial id Iff.rfl hok rfl
  | calling turn =>
    rw [hhere] at h
    obtain rfl := Option.some.inj h
    exact hs.call hhere
  | running call =>
    rw [hhere] at h
    cases call with
    | idle =>
      obtain rfl := Option.some.inj h
      exact hs.pass hhere Iff.rfl Iff.rfl trivial rfl
    | _ => cases h

end Loop

/-! ## Calls -/

section Calls

variable {ι : Type*} {s s' : EventLoop ι} {t : Option ι} {call call' : Call}

theorem callOf_congr (hplace : s'.place = s.place) (hcalls : s'.calls = s.calls) (t : Option ι) :
    s'.callOf t = s.callOf t := by
  cases t with
  | none => simp only [callOf, hplace]
  | some i => simp only [callOf, hcalls]

theorem callOf_none (h : s.callOf none = some call) : s.place = .running call := by
  unfold callOf at h
  dsimp only at h
  split at h
  · rename_i call' hplace
    rw [hplace, Option.some.inj h]
  · cases h

theorem callOf_inside (h : s.callOf t = some call) : s.Inside t ↔ call.Holds := by
  cases t with
  | none => exact inside_none (callOf_none h)
  | some i =>
    obtain rfl := Option.some.inj h
    exact Iff.rfl

/-- Only who has the lock relies on what is in the map, and an action comes to its place. -/
theorem Inv.emplace (hs : Inv s) {point : Int} (hcall : s.callOf t = some (.emplacing point)) :
    Inv { s with
      actions := emplace ⟨s.scheduled, point⟩ s.actions
      scheduled := s.scheduled + 1 } := by
  have hinside : s.Inside t := (callOf_inside hcall).mpr trivial
  refine ⟨hs.mutex, hs.cv, ?_, emplace_sorted _ hs.sorted, ?_, hs.fair⟩
  · cases t with
    | none =>
      show s.place.Ok _
      rw [callOf_none hcall]
      trivial
    | some i =>
      refine hs.place.of_not_holds (fun hholds => ?_) _
      exact Option.some_ne_none i (hs.mutex.alone (u := some i) (t := none) hholds hinside)
  · have hemplace := (emplace_perm ⟨s.scheduled, point⟩ s.actions).append_left
      (s.ran.map Turn.action ++ s.place.carried)
    have hids := (hemplace.trans List.perm_middle).map Action.id
    show (List.map Action.id _).Perm (List.range (s.scheduled + 1))
    rw [List.range_succ]
    exact hids.trans ((hs.accounted.cons s.scheduled).trans (List.perm_append_singleton _ _).symm)

variable [DecidableEq ι]

theorem setCall_inside (s : EventLoop ι) (call : Call) (t : Option ι) :
    (s.setCall call t).Inside t ↔ call.Holds := by
  cases t with
  | none => exact Iff.rfl
  | some i =>
    show (Function.update s.calls i call i).Holds ↔ call.Holds
    rw [Function.update_self]

theorem setCall_moves (s : EventLoop ι) (call : Call) (t : Option ι) :
    Mutex.OnlyMoves t s.Inside (s.setCall call t).Inside := by
  cases t with
  | none => exact inside_place s _
  | some i =>
    rintro (_ | j) hne
    · exact Iff.rfl
    · have hji : j ≠ i := fun heq => hne (congrArg some heq)
      show (Function.update s.calls i call j).Holds ↔ (s.calls j).Holds
      rw [Function.update_of_ne hji]

/-- A thread goes on in its call, with what that takes of `actionsMutex`. -/
theorem Inv.setCall (hs : Inv s) (hcall : s.callOf t = some call) {m : Mutex (Option ι)}
    (hmutex : m.Agrees (s.setCall call' t).Inside) :
    Inv ({ s with actionsMutex := m }.setCall call' t) := by
  cases t with
  | none =>
    have hhere := callOf_none hcall
    exact hs.goto hhere hmutex (hs.keepsCv hhere Iff.rfl) trivial rfl
  | some i => exact ⟨hmutex, hs.cv, hs.place, hs.sorted, hs.accounted, hs.fair⟩

/-- A step of a call in which the thread neither takes `actionsMutex` nor gives it up. -/
theorem Inv.continue (hs : Inv s) (hcall : s.callOf t = some call)
    (hholds : call'.Holds ↔ call.Holds) : Inv (s.setCall call' t) :=
  hs.setCall hcall (hs.mutex.stay (setCall_moves s call' t)
    ((setCall_inside s call' t).trans (hholds.trans (callOf_inside hcall).symm)))

/-- A thread goes on in its call. -/
theorem advanceCall_inv (hs : Inv s) (hcall : s.callOf t = some call)
    (h : s.advanceCall t call = some (s', call')) : Inv (s'.setCall call' t) := by
  unfold advanceCall at h
  cases call with
  | idle => cases h
  | scheduling point =>
    dsimp only at h
    split at h
    · obtain ⟨rfl, rfl⟩ := Prod.mk.inj (Option.some.inj h)
      exact hs.continue hcall Iff.rfl
    · obtain ⟨rfl, rfl⟩ := Prod.mk.inj (Option.some.inj h)
      exact hs.continue hcall Iff.rfl
  | locking point =>
    obtain ⟨m, hlock, heq⟩ := Option.map_eq_some_iff.mp h
    obtain ⟨rfl, rfl⟩ := Prod.mk.inj heq
    exact hs.setCall hcall (hs.mutex.enter (setCall_moves s _ t)
      (mt (callOf_inside hcall).mp id) ((setCall_inside s _ t).mpr trivial) hlock)
  | emplacing point =>
    obtain ⟨rfl, rfl⟩ := Prod.mk.inj (Option.some.inj h)
    exact (hs.emplace hcall).continue ((callOf_congr rfl rfl t).trans hcall) Iff.rfl
  | unlocking =>
    obtain ⟨rfl, rfl⟩ := Prod.mk.inj (Option.some.inj h)
    exact hs.setCall hcall (hs.mutex.leave (setCall_moves s _ t)
      ((callOf_inside hcall).mpr trivial) (mt (setCall_inside s _ t).mp id))
  | stopping =>
    obtain ⟨rfl, rfl⟩ := Prod.mk.inj (Option.some.inj h)
    split
    · exact hs.continue hcall Iff.rfl
    · exact hs.continue hcall Iff.rfl
  | setting =>
    obtain ⟨rfl, rfl⟩ := Prod.mk.inj (Option.some.inj h)
    exact (hs.flags true s.running s.clock).continue ((callOf_congr rfl rfl t).trans hcall)
      Iff.rfl
  | joining =>
    dsimp only at h
    split at h
    · obtain ⟨rfl, rfl⟩ := Prod.mk.inj (Option.some.inj h)
      exact hs.continue hcall Iff.rfl
    · cases h
  | joined =>
    obtain ⟨rfl, rfl⟩ := Prod.mk.inj (Option.some.inj h)
    exact (hs.flags s.stopping false s.clock).continue ((callOf_congr rfl rfl t).trans hcall)
      Iff.rfl

end Calls

/-! ## Runs -/

section Runs

variable {ι : Type*} [DecidableEq ι] {s t : EventLoop ι}

theorem step_inv {e : LoopStep ι} (hs : Inv s) (hdue : DueWhenLookedAt s e)
    (h : s.step e = some t) : Inv t := by
  unfold step at h
  rw [if_neg (Bool.eq_false_iff.mp hs.mutex.once)] at h
  cases e with
  | start =>
    dsimp only at h
    split at h
    · rename_i hhere
      split at h
      · cases h
      · obtain rfl := Option.some.inj h
        exact (hs.flags false true s.clock).pass hhere Iff.rfl Iff.rfl trivial rfl
    · cases h
  | loop => exact advanceLoop_inv hs hdue h
  | wake last =>
    dsimp only at h
    split at h
    · rename_i next hhere
      split at h
      · cases h
      · obtain rfl := Option.some.inj h
        have hok := hs.place
        rw [hhere] at hok
        refine hs.pass hhere Iff.rfl Iff.rfl ?_ rfl
        cases next with
        | none => trivial
        | some next => exact hok
    · cases h
  | schedule u point =>
    dsimp only at h
    split at h
    · rename_i hidle
      obtain rfl := Option.some.inj h
      exact hs.continue hidle Iff.rfl
    · cases h
  | stop u =>
    dsimp only at h
    split at h
    · rename_i hidle
      obtain rfl := Option.some.inj h
      exact hs.continue hidle Iff.rfl
    · cases h
  | advance u =>
    obtain ⟨call, hcall, hmap⟩ := Option.bind_eq_some_iff.mp h
    obtain ⟨⟨s', call'⟩, hadv, rfl⟩ := Option.map_eq_some_iff.mp hmap
    exact advanceCall_inv hs hcall hadv
  | clock now =>
    obtain rfl := Option.some.inj h
    exact hs.flags s.stopping s.running now

/-- In every run in which the first action is due whenever the loop thread looks at it, the mutex
    is never locked by its owner, and the actions are run as they should be. -/
theorem sound_of_due (clock : Int) (es : List (LoopStep ι))
    (hall : AllSteps step DueWhenLookedAt (new clock) es) :
    AllStates step Sound (new clock) es :=
  AllStates.of_allSteps (fun _ _ _ hs hdue h => step_inv hs hdue h) (fun _ hs => sound_of_inv hs)
    (inv_new clock) hall

/-- A call of `schedule` by a thread, all of it. -/
def scheduleSteps (t : Option ι) (point : Int) : List (LoopStep ι) :=
  .schedule t point :: List.replicate 4 (.advance t)

/-- An action is scheduled for the time that the clock shows, and run. -/
theorem sound_of_due_now :
    AllStates step Sound (new 5 : EventLoop Unit)
      (.start :: scheduleSteps (some ()) 5 ++ List.replicate 6 .loop) :=
  sound_of_due 5 _ (by
    simp [AllSteps, step, advanceLoop, advanceCall, DueWhenLookedAt, new, scheduleSteps,
      setCall, callOf, emplace, Mutex.lock, Mutex.unlock, List.replicate])

/-- An action is scheduled for later. The loop thread looks at it, and waits for it. -/
theorem not_sound_later :
    ¬ AllStates step Sound (new 0 : EventLoop Unit)
      (.start :: scheduleSteps (some ()) 5 ++ List.replicate 5 .loop) := by
  intro hall
  exact Bool.noConfusion (hall.exec (t := _) rfl).locked

theorem step_loop (honce : s.actionsMutex.relocked = false) : s.step .loop = s.advanceLoop := by
  unfold step
  exact if_neg (Bool.eq_false_iff.mp honce)

/-- If the first action is not due when the loop thread looks at it, the thread's next steps lock
    the mutex that it owns. -/
theorem relocks_of_early (hs : Inv s) (hlooking : s.place = .looking) {first : Action}
    {rest : List Action} (hactions : s.actions = first :: rest) (hearly : s.clock < first.point) :
    ∃ t, exec step s [.loop, .loop, .loop] = some t ∧ t.actionsMutex.relocked = true := by
  have honce := hs.mutex.once
  have hfree : s.cvMutex.owner = none := by
    rw [Option.eq_none_iff_forall_ne_some]
    intro u howner
    have hheld := ((hs.cv.owner u).mp howner).2
    rw [hlooking] at hheld
    exact hheld
  have hrelock := hs.mutex.relock ((inside_none hlooking).mpr trivial)
  let waiting : EventLoop ι := { s with place := .awaiting (some (first, s.clock)) .entering }
  let checking : EventLoop ι := { s with
    cvMutex := { s.cvMutex with owner := some none }
    place := .awaiting (some (first, s.clock)) (.checking false) }
  let relocked : EventLoop ι := { checking with
    actionsMutex := { s.actionsMutex with relocked := true }
    place := .awaiting (some (first, s.clock)) (.reading false) }
  have hwaiting : s.step .loop = some waiting := by
    rw [step_loop honce]
    simp only [advanceLoop, hlooking, hactions, if_pos hearly, waiting]
  have hchecking : waiting.step .loop = some checking := by
    rw [step_loop (s := waiting) honce]
    simp only [advanceLoop, advanceWait, waiting, checking, Mutex.lock, hfree, Option.map_some]
  have hrelocked : checking.step .loop = some relocked := by
    rw [step_loop (s := checking) honce]
    simp only [advanceLoop, advanceWait, checking, relocked, hrelock, Option.map_some]
  refine ⟨relocked, ?_, rfl⟩
  rw [exec, hwaiting, Option.bind_some, exec, hchecking, Option.bind_some, exec, hrelocked]
  rfl

end Runs

end EventLoop

end Algiz.Threading
