/-
  The close queues of the workers, over whole runs of events.

  An event is a callback of some worker's loop, or a call of `Server::send` or `Server::close`,
  run from its first statement to its last. `Worker::remove` does not touch `closeQueue`, so a
  bufferevent whose close is pending stays queued when something else removes its connection.
  The queues hold registered bufferevents only, in every state of a run, exactly when no end of
  file, error or failed read removes a connection whose close is pending
  (`closeQueue_registered_iff`).
-/
import Algiz.Lib.Transition
import Algiz.Net.Server

namespace Algiz.Net

open Algiz.Lib

variable {Ptr W : Type*}

/-- The maps of the server, what each bufferevent has still to write, and each worker's
    `closeQueue`. -/
structure Pool (Ptr W : Type*) where
  server : Server Ptr W := {}
  output : Ptr → Bytes := fun _ => []
  closeQueue : W → Finset Ptr := fun _ => ∅

/-- The events of the loops, and the calls of the application. -/
inductive PoolEvent (Ptr W : Type*) where
  /-- worker `w` accepts the socket `fd`; `be` is where its bufferevent is allocated -/
  | accept (w : W) (fd pick : Int) (be : Ptr)
  /-- `Server::send(client_id, data)` -/
  | send (id : Int) (data : Bytes)
  /-- `Server::close(client_id)` -/
  | close (id : Int)
  /-- the socket took `n` bytes of the output; `conn_writecb` if that was all -/
  | write (be : Ptr) (n : Nat)
  /-- `conn_eventcb` with `BEV_EVENT_EOF` -/
  | eof (be : Ptr)
  /-- `conn_eventcb` with `BEV_EVENT_ERROR` or `BEV_EVENT_TIMEOUT` -/
  | error (be : Ptr)
  /-- `conn_readcb` with no failure: what handlers do in it are sends and closes -/
  | read (be : Ptr)
  /-- `handleRead` removes the connection: a catch clause, or `removeDescriptor` -/
  | readFailure (be : Ptr)

namespace Pool

variable [DecidableEq Ptr]

/-- `Worker::remove` -/
def remove (s : Pool Ptr W) (be : Ptr) : Option (Pool Ptr W) :=
  match s.server.remove be with
  | .ok server => some { s with server := server }
  | .error _ => none

/-- `Server::getBufferEvent(Server::getDescriptor(client))`; `none` is `std::out_of_range`. -/
def bufferEventOf (s : Pool Ptr W) (id : Int) : Option Ptr :=
  (s.server.descriptors id).bind s.server.bufferEvents

/-- `Server::send` -/
def send (s : Pool Ptr W) (id : Int) (data : Bytes) : Pool Ptr W :=
  match s.bufferEventOf id with
  | none => s
  | some be => { s with output := Function.update s.output be (s.output be ++ data) }

variable [DecidableEq W]

/-- `Worker::queueClose(bufferevent *)` -/
def queueClose (s : Pool Ptr W) (w : W) (be : Ptr) : Option (Pool Ptr W) :=
  if (s.output be).length = 0 then s.remove be
  else some { s with
    closeQueue := Function.update s.closeQueue w (insert be (s.closeQueue w)) }

/-- `Server::close` -/
def close (s : Pool Ptr W) (id : Int) : Option (Pool Ptr W) :=
  match s.bufferEventOf id with
  | none => some s
  | some be =>
    match s.server.workerMap be with
    | none => none
    | some w => s.queueClose w be

/-- `Worker::handleWriteEmpty` -/
def handleWriteEmpty (s : Pool Ptr W) (w : W) (be : Ptr) : Option (Pool Ptr W) :=
  if be ∈ s.closeQueue w then
    Pool.remove { s with
      closeQueue := Function.update s.closeQueue w ((s.closeQueue w).erase be) } be
  else some s

/-- One event. Sockets that are open are not accepted again, and bufferevents are allocated where
    there is none; libevent calls back for bufferevents that there are. -/
def step (s : Pool Ptr W) : PoolEvent Ptr W → Option (Pool Ptr W)
  | .accept w fd pick be =>
    if s.server.clients fd = none ∧ s.server.bufferEventDescriptors be = none then
      match s.server.accept w fd pick be with
      | some (.ok server) =>
        some { s with server := server, output := Function.update s.output be [] }
      | some (.error _) | none => none
    else none
  | .send id data => some (s.send id data)
  | .close id => s.close id
  | .write be n =>
    match s.server.workerMap be with
    | none => none
    | some w =>
      if 0 < n ∧ n ≤ (s.output be).length then
        let output := (s.output be).drop n
        let s' := { s with output := Function.update s.output be output }
        if output.length = 0 then s'.handleWriteEmpty w be else some s'
      else none
  | .eof be => s.remove be
  | .error be => s.remove be
  | .read be => if s.server.bufferEventDescriptors be = none then none else some s
  | .readFailure be => s.remove be

end Pool

/-! ## The property, the condition and the invariant -/

/-- The close queues hold registered bufferevents only. -/
def QueuesRegistered (s : Pool Ptr W) : Prop :=
  ∀ w, ∀ be ∈ s.closeQueue w, s.server.bufferEventDescriptors be ≠ none

/-- The event removes no connection whose close is pending, unless because the output has
    drained. -/
def SparesPending (s : Pool Ptr W) : PoolEvent Ptr W → Prop
  | .eof be | .error be | .readFailure be => ∀ w, be ∉ s.closeQueue w
  | .accept .. | .send .. | .close _ | .write .. | .read _ => True

/-- The invariant of runs in which the property holds: the maps belong together, and a queued
    bufferevent is its worker's and has something to write. -/
structure Wf (s : Pool Ptr W) : Prop where
  maps : s.server.Whole
  queued : ∀ w, ∀ be ∈ s.closeQueue w, s.server.workerMap be = some w ∧ s.output be ≠ []

theorem wf_init : Wf ({} : Pool Ptr W) := by
  refine ⟨Server.whole_init, ?_⟩
  intro w be hbe
  exact absurd hbe (Finset.notMem_empty be)

theorem queuesRegistered_init : QueuesRegistered ({} : Pool Ptr W) := by
  intro w be hbe
  exact absurd hbe (Finset.notMem_empty be)

/-! ## The removal -/

section Remove

variable [DecidableEq Ptr] {s t : Pool Ptr W} {be : Ptr}

/-- A removal does to the maps what `Server.remove` does, and nothing else. -/
theorem remove_server (hremove : s.remove be = some t) :
    ∃ server, s.server.remove be = .ok server ∧ t = { s with server := server } := by
  unfold Pool.remove at hremove
  cases hserver : s.server.remove be with
  | error e =>
    rw [hserver] at hremove
    exact nomatch hremove
  | ok server =>
    rw [hserver] at hremove
    exact ⟨server, rfl, (Option.some.inj hremove).symm⟩

/-- What a removal leaves: the bufferevent is in no map, and the rest is as it was. -/
theorem remove_frame (hremove : s.remove be = some t) :
    t.server.bufferEventDescriptors = s.server.bufferEventDescriptors.erase be ∧
      t.server.workerMap = s.server.workerMap.erase be ∧
      t.closeQueue = s.closeQueue ∧ t.output = s.output := by
  obtain ⟨server, hserver, rfl⟩ := remove_server hremove
  obtain ⟨fd, id, -, -, rfl⟩ := Server.remove_cases hserver
  exact ⟨rfl, rfl, rfl, rfl⟩

/-- A removal keeps the maps together. The queues are left out: they are kept only if the
    bufferevent was in none of them. -/
theorem remove_wf (hs : Wf s) (hqueued : ∀ w, be ∉ s.closeQueue w)
    (hremove : s.remove be = some t) : Wf t := by
  obtain ⟨-, hworkers, hqueue, houtput⟩ := remove_frame hremove
  have hmaps : t.server.Whole := by
    obtain ⟨server, hserver, rfl⟩ := remove_server hremove
    exact Server.remove_whole hs.maps hserver
  refine ⟨hmaps, fun w b hb => ?_⟩
  rw [hqueue] at hb
  have hne : b ≠ be := by
    rintro rfl
    exact hqueued w hb
  rw [hworkers, houtput, Map.erase_of_ne _ hne]
  exact hs.queued w b hb

/-- A removal keeps the property exactly when the bufferevent was queued nowhere. -/
theorem remove_registered_iff (hp : QueuesRegistered s) (hremove : s.remove be = some t) :
    QueuesRegistered t ↔ ∀ w, be ∉ s.closeQueue w := by
  obtain ⟨hdescriptors, -, hqueue, -⟩ := remove_frame hremove
  unfold QueuesRegistered
  rw [hdescriptors, hqueue]
  constructor
  · intro hall w hbe
    exact hall w be hbe (Map.erase_self ..)
  · intro hspare w b hb
    have hne : b ≠ be := by
      rintro rfl
      exact hspare w hb
    rw [Map.erase_of_ne _ hne]
    exact hp w b hb

end Remove

/-! ## The other events keep both -/

section Steps

variable {s t : Pool Ptr W} (hs : Wf s) (hp : QueuesRegistered s)
include hs hp

/-- A change of the output that leaves something to write wherever a close is pending. -/
theorem output_keeps {output : Ptr → Bytes}
    (houtput : ∀ w, ∀ be ∈ s.closeQueue w, output be ≠ []) :
    Wf { s with output := output } ∧ QueuesRegistered { s with output := output } :=
  ⟨⟨hs.maps, fun w be hbe =>
    ⟨(hs.queued w be hbe).1, houtput w be hbe⟩⟩, hp⟩

variable [DecidableEq Ptr]

theorem accept_keeps {w : W} {fd pick : Int} {be : Ptr} {server : Server Ptr W}
    (hfd : s.server.clients fd = none) (hbe : s.server.bufferEventDescriptors be = none)
    (haccept : s.server.accept w fd pick be = some (.ok server)) :
    let t := { s with server := server, output := Function.update s.output be [] }
    Wf t ∧ QueuesRegistered t := by
  obtain ⟨hmaps, id, s₁, -, -, -, hdescriptors, hworkers⟩ :=
    Server.accept_whole hs.maps hfd hbe haccept
  have hfresh : ∀ w, ∀ b ∈ s.closeQueue w, b ≠ be := by
    rintro w b hb rfl
    exact hp w b hb hbe
  refine ⟨⟨hmaps, fun w' b hb => ?_⟩, fun w' b hb => ?_⟩
  · have hne := hfresh w' b hb
    show server.workerMap b = some w' ∧ Function.update s.output be [] b ≠ []
    rw [hworkers, Map.set_of_ne _ hne, Function.update_of_ne hne]
    exact hs.queued w' b hb
  · show server.bufferEventDescriptors b ≠ none
    rw [hdescriptors, Map.set_of_ne _ (hfresh w' b hb)]
    exact hp w' b hb

theorem send_keeps (id : Int) (data : Bytes) :
    Wf (s.send id data) ∧ QueuesRegistered (s.send id data) := by
  unfold Pool.send
  cases s.bufferEventOf id with
  | none => exact ⟨hs, hp⟩
  | some be =>
    refine output_keeps hs hp fun w b hb => ?_
    have hne := (hs.queued w b hb).2
    by_cases hbe : b = be
    · subst hbe
      rw [Function.update_self]
      intro hnil
      exact hne (List.append_eq_nil_iff.mp hnil).1
    · rwa [Function.update_of_ne hbe]

variable [DecidableEq W]

theorem queueClose_keeps {w : W} {be : Ptr} (hw : s.server.workerMap be = some w)
    (hclose : s.queueClose w be = some t) : Wf t ∧ QueuesRegistered t := by
  unfold Pool.queueClose at hclose
  by_cases hout : (s.output be).length = 0
  · -- with nothing to write the close is not pending, and the connection is removed at once
    rw [if_pos hout] at hclose
    have hspare : ∀ w', be ∉ s.closeQueue w' := by
      intro w' hbe
      exact (hs.queued w' be hbe).2 (List.eq_nil_of_length_eq_zero hout)
    exact ⟨remove_wf hs hspare hclose, (remove_registered_iff hp hclose).mpr hspare⟩
  · rw [if_neg hout] at hclose
    obtain rfl := Option.some.inj hclose
    have hcases : ∀ w' b, b ∈ Function.update s.closeQueue w (insert be (s.closeQueue w)) w' →
        (w' = w ∧ b = be) ∨ b ∈ s.closeQueue w' := by
      intro w' b hb
      by_cases hw' : w' = w
      · subst hw'
        rw [Function.update_self, Finset.mem_insert] at hb
        rcases hb with hb | hb
        · exact Or.inl ⟨rfl, hb⟩
        · exact Or.inr hb
      · rw [Function.update_of_ne hw'] at hb
        exact Or.inr hb
    constructor
    · refine ⟨hs.maps, fun w' b hb => ?_⟩
      rcases hcases w' b hb with ⟨rfl, rfl⟩ | hb
      · exact ⟨hw, fun hnil => hout (by rw [hnil]; rfl)⟩
      · exact hs.queued w' b hb
    · intro w' b hb
      rcases hcases w' b hb with ⟨rfl, rfl⟩ | hb
      · intro hnone
        have hnone' := (hs.maps.workers b).mpr hnone
        rw [hw] at hnone'
        exact nomatch hnone'
      · exact hp w' b hb

theorem close_keeps {id : Int} (hclose : s.close id = some t) : Wf t ∧ QueuesRegistered t := by
  unfold Pool.close at hclose
  split at hclose
  · obtain rfl := Option.some.inj hclose
    exact ⟨hs, hp⟩
  · rename_i be hbe
    split at hclose
    · exact nomatch hclose
    · rename_i w hw
      exact queueClose_keeps hs hp hw hclose

/-- The drained output of a bufferevent: its pending close is carried out and forgotten. -/
theorem drained_keeps {w : W} {be : Ptr} (hw : s.server.workerMap be = some w)
    (hwrite : Pool.handleWriteEmpty { s with output := Function.update s.output be [] } w be =
      some t) : Wf t ∧ QueuesRegistered t := by
  -- whoever has `be` queued is its worker
  have honly : ∀ w', be ∈ s.closeQueue w' → w' = w := by
    intro w' hbe
    have := (hs.queued w' be hbe).1
    rw [hw] at this
    exact (Option.some.inj this).symm
  unfold Pool.handleWriteEmpty at hwrite
  by_cases hmem : be ∈ s.closeQueue w
  · rw [if_pos hmem] at hwrite
    have hsub : ∀ w' b,
        b ∈ Function.update s.closeQueue w ((s.closeQueue w).erase be) w' →
          b ∈ s.closeQueue w' ∧ b ≠ be := by
      intro w' b hb
      by_cases hw' : w' = w
      · subst hw'
        rw [Function.update_self, Finset.mem_erase] at hb
        exact ⟨hb.2, hb.1⟩
      · rw [Function.update_of_ne hw'] at hb
        refine ⟨hb, ?_⟩
        rintro rfl
        exact hw' (honly w' hb)
    have hspare : ∀ w', be ∉ Function.update s.closeQueue w ((s.closeQueue w).erase be) w' :=
      fun w' hbe => (hsub w' be hbe).2 rfl
    have hwf : Wf { s with
        output := Function.update s.output be []
        closeQueue := Function.update s.closeQueue w ((s.closeQueue w).erase be) } := by
      refine ⟨hs.maps, fun w' b hb => ?_⟩
      obtain ⟨hb', hne⟩ := hsub w' b hb
      show s.server.workerMap b = some w' ∧ Function.update s.output be [] b ≠ []
      rw [Function.update_of_ne hne]
      exact hs.queued w' b hb'
    have hregistered : QueuesRegistered { s with
        output := Function.update s.output be []
        closeQueue := Function.update s.closeQueue w ((s.closeQueue w).erase be) } :=
      fun w' b hb => hp w' b (hsub w' b hb).1
    exact ⟨remove_wf hwf hspare hwrite, (remove_registered_iff hregistered hwrite).mpr hspare⟩
  · rw [if_neg hmem] at hwrite
    obtain rfl := Option.some.inj hwrite
    refine output_keeps hs hp fun w' b hb => ?_
    have hne : b ≠ be := by
      rintro rfl
      rw [honly w' hb] at hb
      exact hmem hb
    rw [Function.update_of_ne hne]
    exact (hs.queued w' b hb).2

theorem write_keeps {be : Ptr} {n : Nat} (hstep : s.step (.write be n) = some t) :
    Wf t ∧ QueuesRegistered t := by
  rw [Pool.step] at hstep
  split at hstep
  · exact nomatch hstep
  · rename_i w hw
    by_cases hn : 0 < n ∧ n ≤ (s.output be).length
    · rw [if_pos hn] at hstep
      dsimp only at hstep
      by_cases hdrained : ((s.output be).drop n).length = 0
      · rw [if_pos hdrained, List.eq_nil_of_length_eq_zero hdrained] at hstep
        exact drained_keeps hs hp hw hstep
      · rw [if_neg hdrained] at hstep
        obtain rfl := Option.some.inj hstep
        refine output_keeps hs hp fun w' b hb => ?_
        by_cases hbe : b = be
        · subst hbe
          rw [Function.update_self]
          intro hnil
          rw [hnil] at hdrained
          exact hdrained rfl
        · rw [Function.update_of_ne hbe]
          exact (hs.queued w' b hb).2
    · rw [if_neg hn] at hstep
      exact nomatch hstep

theorem step_accept_keeps {w : W} {fd pick : Int} {be : Ptr}
    (hstep : s.step (.accept w fd pick be) = some t) : Wf t ∧ QueuesRegistered t := by
  rw [Pool.step] at hstep
  by_cases hfree : s.server.clients fd = none ∧ s.server.bufferEventDescriptors be = none
  · rw [if_pos hfree] at hstep
    split at hstep
    · rename_i server haccept
      obtain rfl := Option.some.inj hstep
      exact accept_keeps hs hp hfree.1 hfree.2 haccept
    · exact nomatch hstep
    · exact nomatch hstep
  · rw [if_neg hfree] at hstep
    exact nomatch hstep

end Steps

/-! ## Runs -/

section Runs

variable [DecidableEq Ptr] [DecidableEq W]

/-- One event keeps the property exactly when it spares the connections whose close is
    pending. -/
theorem step_registered_iff {s t : Pool Ptr W} {e : PoolEvent Ptr W} (hs : Wf s)
    (hp : QueuesRegistered s) (hstep : s.step e = some t) :
    QueuesRegistered t ↔ SparesPending s e := by
  cases e with
  | accept w fd pick be => exact iff_of_true (step_accept_keeps hs hp hstep).2 trivial
  | send id data =>
    obtain rfl := Option.some.inj hstep
    exact iff_of_true (send_keeps hs hp id data).2 trivial
  | close id => exact iff_of_true (close_keeps hs hp hstep).2 trivial
  | write be n => exact iff_of_true (write_keeps hs hp hstep).2 trivial
  | read be =>
    rw [Pool.step] at hstep
    split at hstep
    · exact nomatch hstep
    · obtain rfl := Option.some.inj hstep
      exact iff_of_true hp trivial
  | eof be => exact remove_registered_iff hp hstep
  | error be => exact remove_registered_iff hp hstep
  | readFailure be => exact remove_registered_iff hp hstep

theorem step_wf {s t : Pool Ptr W} {e : PoolEvent Ptr W} (hs : Wf s) (hp : QueuesRegistered s)
    (hstep : s.step e = some t) (hpt : QueuesRegistered t) : Wf t := by
  cases e with
  | accept w fd pick be => exact (step_accept_keeps hs hp hstep).1
  | send id data =>
    obtain rfl := Option.some.inj hstep
    exact (send_keeps hs hp id data).1
  | close id => exact (close_keeps hs hp hstep).1
  | write be n => exact (write_keeps hs hp hstep).1
  | read be =>
    rw [Pool.step] at hstep
    split at hstep
    · exact nomatch hstep
    · obtain rfl := Option.some.inj hstep
      exact hs
  | eof be => exact remove_wf hs ((remove_registered_iff hp hstep).mp hpt) hstep
  | error be => exact remove_wf hs ((remove_registered_iff hp hstep).mp hpt) hstep
  | readFailure be => exact remove_wf hs ((remove_registered_iff hp hstep).mp hpt) hstep

/-- In every run, for any order of its events: the close queues hold registered bufferevents only
    in every state, if and only if no end of file, error or failed read removes a connection
    whose close is pending. -/
theorem closeQueue_registered_iff (es : List (PoolEvent Ptr W)) :
    AllStates Pool.step QueuesRegistered {} es ↔ AllSteps Pool.step SparesPending {} es :=
  allStates_iff (fun _ _ _ hs hp hstep hpt => step_wf hs hp hstep hpt)
    (fun _ _ _ hs hp hstep => step_registered_iff hs hp hstep) es wf_init queuesRegistered_init

end Runs

/-- A client that is sent something and closed hangs up first. Another client comes, and its
    bufferevent is allocated where the first one's was. -/
def hangUp : List (PoolEvent Nat Unit) :=
  [.accept () 5 0 100, .send 0 (ascii "bye"), .close 0, .eof 100, .accept () 6 0 100,
    .send 0 (ascii "hello"), .write 100 5]

/-- The first client's entry outlives it, and closes the second client when its output has
    drained. -/
theorem closeQueue_outlives :
    ¬ AllStates Pool.step QueuesRegistered ({} : Pool Nat Unit) (hangUp.take 4) ∧
      ((exec Pool.step ({} : Pool Nat Unit) (hangUp.take 6)).get rfl).server.clients 6 = some 0 ∧
      ((exec Pool.step ({} : Pool Nat Unit) hangUp).get rfl).server.clients 6 = none := by
  refine ⟨fun hall => ?_, rfl, rfl⟩
  have hlast := (((hall.2 _ rfl).2 _ rfl).2 _ rfl).2 _ rfl
  exact hlast () 100 (by decide) rfl

end Algiz.Net
