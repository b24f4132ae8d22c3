/-
  New connections on their way to the workers.

  The listener puts each descriptor into the accept queue of the next worker and then activates
  the worker's `acceptEvent`; a worker whose event is active empties its queue, the newest
  descriptor first, and hands each to `accept`. `acceptQueueMutex` is held while the queue is
  emptied, so the listener waits that long, but not between its two steps. `run` starts the
  listener before it makes the workers, and `workers.at` throws where there is none yet.

  In every state the descriptors of a worker are those whose turn was its own, each in its queue
  or handed over once, and a queue with a descriptor is about to be looked at (`shared_out`).
-/
import Mathlib.Data.List.Induction
import Mathlib.Data.List.Perm.Basic
import Mathlib.Logic.Function.Basic
import Algiz.Lib.Transition

namespace Algiz.Net

open Algiz.Lib

/-- The listener and the accept queues; `arrived` and `accepted` are the history. -/
structure Accepting where
  /-- how many workers `run` has made -/
  workers : Nat := 0
  threadCursor : Nat := 0
  acceptQueue : Nat → List Int := fun _ => []
  /-- `acceptEvent` of the worker is active -/
  active : Nat → Bool := fun _ => false
  /-- the worker is in `worker_acceptcb` -/
  emptying : Nat → Bool := fun _ => false
  /-- the listener is between `push_back` and `event_active` of this worker -/
  pushed : Option Nat := none
  /-- `std::out_of_range` has left the listener's thread -/
  terminated : Bool := false
  arrived : List Int := []
  accepted : Nat → List Int := fun _ => []

/-- What the threads do next -/
inductive AcceptStep where
  /-- `run` makes the next worker -/
  | makeWorker
  /-- the listener has a connection, and pushes its descriptor -/
  | arrive (fd : Int)
  /-- the listener calls `event_active`, and moves its cursor on -/
  | activate
  /-- the loop of a worker calls `worker_acceptcb` -/
  | wake (w : Nat)
  /-- it takes a descriptor off its queue -/
  | accept (w : Nat)
  /-- it has found the queue empty, and returns -/
  | leave (w : Nat)

namespace Accepting

/-- `listener_cb` up to the end of `queueAccept`'s locked section -/
def arrive (s : Accepting) (fd : Int) : Option Accepting :=
  if s.pushed ≠ none then none
  else if s.workers ≤ s.threadCursor then some { s with terminated := true }
  else if s.emptying s.threadCursor then none
  else some { s with
    acceptQueue := Function.update s.acceptQueue s.threadCursor
      (s.acceptQueue s.threadCursor ++ [fd])
    pushed := some s.threadCursor
    arrived := s.arrived ++ [fd] }

/-- The rest of `listener_cb` -/
def activate (threadCount : Nat) (s : Accepting) : Option Accepting :=
  match s.pushed with
  | none => none
  | some w => some { s with
      active := Function.update s.active w true
      threadCursor := (s.threadCursor + 1) % threadCount
      pushed := none }

/-- One turn of the loop in `worker_acceptcb` -/
def accept (s : Accepting) (w : Nat) : Option Accepting :=
  match (s.acceptQueue w).getLast? with
  | none => none
  | some fd => some { s with
      acceptQueue := Function.update s.acceptQueue w (s.acceptQueue w).dropLast
      accepted := Function.update s.accepted w (s.accepted w ++ [fd]) }

/-- One step of a server with that many threads; `none` if it cannot be taken. -/
def step (threadCount : Nat) (s : Accepting) (e : AcceptStep) : Option Accepting :=
  if s.terminated then none
  else
    match e with
    | .makeWorker =>
      if s.workers < threadCount then some { s with workers := s.workers + 1 } else none
    | .arrive fd => s.arrive fd
    | .activate => s.activate threadCount
    | .wake w =>
      if s.active w ∧ ¬ s.emptying w then some { s with
        active := Function.update s.active w false
        emptying := Function.update s.emptying w true }
      else none
    | .accept w => if s.emptying w then s.accept w else none
    | .leave w =>
      if s.emptying w ∧ s.acceptQueue w = [] then
        some { s with emptying := Function.update s.emptying w false }
      else none

/-- Somebody is about to look into the queue of the worker. -/
def Attended (s : Accepting) (w : Nat) : Prop :=
  s.active w = true ∨ s.emptying w = true ∨ s.pushed = some w

end Accepting

/-- The descriptors whose turn is that of worker `w`: every `n`th, from the one at `w` on -/
def share (n w : Nat) (arrived : List Int) : List Int :=
  (arrived.zipIdx.filter fun p => p.2 % n = w).map Prod.fst

theorem share_append_singleton (n w : Nat) (arrived : List Int) (fd : Int) :
    share n w (arrived ++ [fd]) =
      share n w arrived ++ if arrived.length % n = w then [fd] else [] := by
  simp only [share, List.zipIdx_append, List.filter_append, List.map_append, Nat.zero_add,
    List.zipIdx_singleton]
  by_cases h : arrived.length % n = w
  · simp [h]
  · simp [h]

/-- The turn of worker `w` comes after `k` turns exactly if `k` and the turns that are left until
    the next round fill up whole rounds. -/
theorem dvd_turns_iff {n w : Nat} (hw : w < n) (k : Nat) : n ∣ k + (n - w) ↔ k % n = w := by
  have hlt := Nat.mod_lt k (Nat.zero_lt_of_lt hw)
  have hsplit : k + (n - w) = n * (k / n) + (k % n + (n - w)) := by
    rw [← Nat.add_assoc, Nat.div_add_mod]
  rw [hsplit, Nat.dvd_add_right (Nat.dvd_mul_right n _)]
  constructor
  · rintro ⟨j, hj⟩
    obtain rfl : j = 1 := by
      rcases Nat.lt_trichotomy j 1 with hj1 | hj1 | hj1
      · obtain rfl : j = 0 := by omega
        omega
      · exact hj1
      · have := Nat.mul_le_mul_left n (show 2 ≤ j by omega)
        omega
    omega
  · intro h
    exact ⟨1, by omega⟩

/-- The shares are as large as each other, up to one. -/
theorem length_share {n w : Nat} (hw : w < n) (arrived : List Int) :
    (share n w arrived).length = (arrived.length + (n - 1 - w)) / n := by
  induction arrived using List.reverseRecOn with
  | nil => simp [share, Nat.div_eq_of_lt (show n - 1 - w < n by omega)]
  | append_singleton arrived fd ih =>
    have hsucc : arrived.length + 1 + (n - 1 - w) = arrived.length + (n - 1 - w) + 1 := by omega
    have hturn : arrived.length + (n - 1 - w) + 1 = arrived.length + (n - w) := by omega
    rw [share_append_singleton, List.length_append, ih, List.length_append, List.length_singleton,
      hsucc, Nat.succ_div, hturn]
    congr 1
    by_cases h : arrived.length % n = w
    · rw [if_pos h, if_pos ((dvd_turns_iff hw _).mpr h), List.length_singleton]
    · rw [if_neg h, if_neg (mt (dvd_turns_iff hw _).mp h), List.length_nil]

/-! ## The invariant -/

namespace Accepting

/-- `n` is the number of threads. -/
structure Inv (n : Nat) (s : Accepting) : Prop where
  workers : s.workers ≤ n
  turn : s.threadCursor < n
  early : s.terminated = true → s.workers < n
  cursor : s.pushed = none → s.arrived.length % n = s.threadCursor
  between : ∀ w, s.pushed = some w →
    w = s.threadCursor ∧ s.arrived.length % n = (s.threadCursor + 1) % n
  shares : ∀ w, (s.accepted w ++ s.acceptQueue w).Perm (share n w s.arrived)
  attended : ∀ w, s.acceptQueue w ≠ [] → s.Attended w

variable {n : Nat} {s s' : Accepting}

/-- What the step does not take away from the worker. -/
theorem Attended.mono {w : Nat} (h : s.Attended w)
    (hactive : s.active w = true → s'.active w = true)
    (hemptying : s.emptying w = true → s'.emptying w = true)
    (hpushed : s.pushed = some w → s'.pushed = some w) : s'.Attended w :=
  Or.imp hactive (Or.imp hemptying hpushed) h

theorem inv_init (hn : 0 < n) : Inv n {} where
  workers := Nat.zero_le n
  turn := hn
  early h := by cases h
  cursor _ := Nat.zero_mod n
  between w h := by cases h
  shares _ := List.Perm.refl []
  attended _ h := absurd rfl h

/-- The worker that the listener pushes to is the one whose turn it is. -/
theorem arrive_inv (h : Inv n s) {fd : Int} (hstep : s.arrive fd = some s') : Inv n s' := by
  have hcursor := h.turn
  unfold arrive at hstep
  split at hstep
  · cases hstep
  rename_i hpushed
  replace hpushed := not_not.mp hpushed
  split at hstep
  · rename_i hmissing
    obtain rfl := Option.some.inj hstep
    exact ⟨h.workers, h.turn, fun _ => by dsimp only; omega, h.cursor, h.between, h.shares,
      h.attended⟩
  split at hstep
  · cases hstep
  obtain rfl := Option.some.inj hstep
  refine ⟨h.workers, h.turn, h.early, fun hnone => (by cases hnone), ?_, ?_, ?_⟩
  · intro w hw
    obtain rfl := Option.some.inj hw
    refine ⟨rfl, ?_⟩
    rw [List.length_append, List.length_singleton, Nat.add_mod, h.cursor hpushed, Nat.add_mod_mod]
  · intro w
    dsimp only
    rw [share_append_singleton, h.cursor hpushed]
    by_cases hw : s.threadCursor = w
    · subst hw
      rw [Function.update_self, if_pos rfl, ← List.append_assoc]
      exact (h.shares _).append_right _
    · rw [Function.update_of_ne (Ne.symm hw), if_neg hw, List.append_nil]
      exact h.shares w
  · intro w hqueue
    by_cases hw : w = s.threadCursor
    · exact .inr (.inr (hw ▸ rfl))
    · dsimp only at hqueue
      rw [Function.update_of_ne hw] at hqueue
      refine (h.attended w hqueue).mono id id fun hnext => ?_
      rw [hpushed] at hnext
      cases hnext

theorem activate_inv (h : Inv n s) (hstep : s.activate n = some s') : Inv n s' := by
  have hcursor := h.turn
  unfold activate at hstep
  split at hstep
  · cases hstep
  rename_i v hpushed
  obtain rfl := Option.some.inj hstep
  refine ⟨h.workers, Nat.mod_lt _ (by omega), h.early, fun _ => (h.between v hpushed).2,
    fun w hw => (by cases hw), h.shares, ?_⟩
  intro w hqueue
  by_cases hw : w = v
  · subst hw
    exact .inl (Function.update_self ..)
  · refine (h.attended w hqueue).mono (fun hactive => ?_) id fun hnext => ?_
    · exact (Function.update_of_ne hw ..).trans hactive
    · rw [hpushed] at hnext
      exact absurd (Option.some.inj hnext).symm hw

theorem accept_inv (h : Inv n s) {w : Nat} (hemptying : s.emptying w = true)
    (hstep : s.accept w = some s') : Inv n s' := by
  unfold accept at hstep
  split at hstep
  · cases hstep
  rename_i fd hlast
  obtain rfl := Option.some.inj hstep
  have hqueue : s.acceptQueue w = (s.acceptQueue w).dropLast ++ [fd] :=
    (List.dropLast_append_getLast? fd hlast).symm
  refine ⟨h.workers, h.turn, h.early, h.cursor, h.between, ?_, ?_⟩
  · intro v
    dsimp only
    by_cases hv : v = w
    · subst hv
      rw [Function.update_self, Function.update_self, List.append_assoc]
      refine List.Perm.trans ?_ (h.shares v)
      rw [List.perm_append_left_iff]
      conv_rhs => rw [hqueue]
      exact List.perm_append_comm
    · rw [Function.update_of_ne hv, Function.update_of_ne hv]
      exact h.shares v
  · intro v hv
    by_cases hvw : v = w
    · exact .inr (.inl (hvw ▸ hemptying))
    · dsimp only at hv
      rw [Function.update_of_ne hvw] at hv
      exact h.attended v hv

theorem step_inv (s : Accepting) (e : AcceptStep) (s' : Accepting) (h : Inv n s)
    (hstep : s.step n e = some s') : Inv n s' := by
  unfold step at hstep
  split at hstep
  · cases hstep
  rename_i halive
  cases e with
  | makeWorker =>
    dsimp only at hstep
    split at hstep
    · rename_i hless
      obtain rfl := Option.some.inj hstep
      exact ⟨hless, h.turn, fun hdead => absurd hdead halive, h.cursor, h.between, h.shares,
        h.attended⟩
    · cases hstep
  | arrive fd => exact arrive_inv h hstep
  | activate => exact activate_inv h hstep
  | wake w =>
    dsimp only at hstep
    split at hstep
    · obtain rfl := Option.some.inj hstep
      refine ⟨h.workers, h.turn, h.early, h.cursor, h.between, h.shares, fun v hqueue => ?_⟩
      by_cases hv : v = w
      · subst hv
        exact .inr (.inl (Function.update_self ..))
      · exact (h.attended v hqueue).mono
          (fun hactive => (Function.update_of_ne hv ..).trans hactive)
          (fun hemptying => (Function.update_of_ne hv ..).trans hemptying) id
    · cases hstep
  | accept w =>
    dsimp only at hstep
    split at hstep
    · exact accept_inv h ‹_› hstep
    · cases hstep
  | leave w =>
    dsimp only at hstep
    split at hstep
    · rename_i hleave
      obtain rfl := Option.some.inj hstep
      refine ⟨h.workers, h.turn, h.early, h.cursor, h.between, h.shares, fun v hqueue => ?_⟩
      by_cases hv : v = w
      · exact absurd (hv ▸ hleave.2) hqueue
      · exact (h.attended v hqueue).mono id
          (fun hemptying => (Function.update_of_ne hv ..).trans hemptying) id
    · cases hstep

/-- Every descriptor that has arrived goes to the worker whose turn it was, and is handed over
    once or in its queue still; a queue that has one is about to be looked at; the workers' shares
    differ by one at most. The listener ends in an exception only while workers are still being
    made. -/
theorem shared_out (hn : 0 < n) (hreach : Reachable (step n) {} s) :
    (∀ w, (s.accepted w ++ s.acceptQueue w).Perm (share n w s.arrived)) ∧
      (∀ w, s.acceptQueue w ≠ [] → s.Attended w) ∧
      (∀ v < n, ∀ w < n, (s.accepted v ++ s.acceptQueue v).length ≤
        (s.accepted w ++ s.acceptQueue w).length + 1) ∧
      (s.terminated = true → s.workers < n) := by
  have h : Inv n s := hreach.invariant step_inv (inv_init hn)
  refine ⟨h.shares, h.attended, fun v hv w hw => ?_, h.early⟩
  rw [(h.shares v).length_eq, (h.shares w).length_eq, length_share hv, length_share hw,
    ← Nat.add_div_right _ hn]
  exact Nat.div_le_div_right (by omega)

/-- Three connections for two workers, the first of which has emptied its queue once. -/
def threeArrivals : List AcceptStep :=
  [.makeWorker, .makeWorker, .arrive 5, .activate, .arrive 6, .activate, .wake 0, .accept 0,
    .leave 0, .arrive 7]

def afterThree : Accepting := (exec (step 2) {} threeArrivals).get (by decide)

theorem shared_out_threeArrivals :
    (afterThree.accepted 0 ++ afterThree.acceptQueue 0).Perm (share 2 0 afterThree.arrived) ∧
      afterThree.Attended 0 := by
  have hreach : Reachable (step 2) {} afterThree := ⟨threeArrivals, (Option.some_get _).symm⟩
  obtain ⟨hshares, hattended, -⟩ := shared_out (by decide) hreach
  exact ⟨hshares 0, hattended 0 (by decide)⟩

/-- A connection that comes before the first worker is made -/
example : (exec (step 1) {} [.arrive 5]).map terminated = some true := by decide

end Accepting

end Algiz.Net
