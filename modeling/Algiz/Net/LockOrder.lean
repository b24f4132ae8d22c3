/-
  Which mutexes the threads of a `Server` lock, and in which order.

  A function of the source is its `Locking`: the scopes in which it holds a mutex, the calls it
  makes, and where it may throw. The threads are the listener and one worker for each `W`; a
  worker runs any callbacks one after the other, and a handler sends to any client, throws, and
  closes any clients of its own worker and of the workers `closes` names. `close` and the close
  handlers call each other, `n` deep at most. The mutexes that the plugins have of their own are
  not looked at, nor are `certificatesMutex` and that of `requestCertificate`, which an SSL
  worker locks as it picks a certificate: it holds no other mutex of the server then, and takes
  none while it holds them. No thread is ever stuck exactly where a handler closes clients of its
  own worker only (`not_stuck_iff`), as those of this repository do; then every run can be carried
  on until all callbacks have returned (`callbacks_return`).
-/
import Algiz.Lib.LockScopes
import Mathlib.Data.Fintype.Option

namespace Algiz.Net

open Algiz.Lib

/-- The mutexes of a `Server` with the workers `W`, those of an `SSLServer` but the two for its
    certificates, and that of `GeoIP` -/
inductive ServerLock (W : Type*) where
  | readMutex (w : W)
  | acceptQueueMutex (w : W)
  | closeQueueMutex (w : W)
  | clientsMutex
  | descriptorsMutex
  | workerMapMutex
  | sslContextMutex
  | sslsMutex
  | geoIPMutex
  deriving DecidableEq

namespace ServerLock

variable {W : Type*}

/-- Which of them are a `std::recursive_mutex`; the others are a `std::mutex`. -/
def recursive : ServerLock W → Bool
  | .sslContextMutex | .sslsMutex | .geoIPMutex => false
  | _ => true

end ServerLock

/-! ## The functions -/

namespace Locks

open Locking ServerLock

variable {W : Type*}

def getDescriptor : Locking (ServerLock W) := holding clientsMutex mayThrow

def getBufferEvent : Locking (ServerLock W) := holding descriptorsMutex mayThrow

def send : Locking (ServerLock W) := catching (seq getDescriptor getBufferEvent) skip

section Workers

variable (ssl : Bool)

/-- `Worker::remove` for a client of worker `w`. An `SSLServer` locks one mutex more, unless it is
    being destroyed. -/
def removing (w : W) (closeHandler : Locking (ServerLock W)) : Locking (ServerLock W) :=
  all [holding descriptorsMutex mayThrow,
    holding clientsMutex (seq mayThrow (maybe closeHandler)),
    holding (readMutex w) skip,
    holding workerMapMutex skip,
    if ssl then maybe (holding sslsMutex skip) else skip]

def queueClose (w : W) (closeHandler : Locking (ServerLock W)) : Locking (ServerLock W) :=
  either (removing ssl w closeHandler) (holding (closeQueueMutex w) skip)

/-- What a handler does for a client of worker `w`, if `close v` closes a client of `v` -/
def handlerCalls (closes : W → List W) (close : W → Locking (ServerLock W)) (w : W) :
    Locking (ServerLock W) :=
  many (any [send, mayThrow, any ((w :: closes w).map close)])

/-- `HTTP::Server::closeWebSocket`, which is the `closeHandler` -/
def closeWebSocket (closes : W → List W) (close : W → Locking (ServerLock W)) (w : W) :
    Locking (ServerLock W) :=
  seq (handlerCalls closes close w) (close w)

/-- `Server::close` for a client of worker `w`. Where it is not found, nothing is done; this is
    so for the client that is being closed. -/
def close (closes : W → List W) : Nat → W → Locking (ServerLock W)
  | 0, _ => catching (seq getDescriptor getBufferEvent) skip
  | n + 1, w =>
    seq (catching (seq getDescriptor getBufferEvent) skip)
      (maybe (seq (holding workerMapMutex mayThrow)
        (queueClose ssl w (closeWebSocket closes (close closes n) w))))

variable (closes : W → List W) (n : Nat) (w : W)

def remove : Locking (ServerLock W) :=
  removing ssl w (closeWebSocket closes (close ssl closes n) w)

def removeDescriptor : Locking (ServerLock W) := seq getBufferEvent (remove ssl closes n w)

def handleMessage : Locking (ServerLock W) := handlerCalls closes (close ssl closes n) w

def onMaxLineSizeExceeded : Locking (ServerLock W) := send

/-- What `handleRead` does inside of its `try` -/
def readLoop : Locking (ServerLock W) :=
  holding (readMutex w) (holding clientsMutex (seq mayThrow (many (all [mayThrow,
    any [handleMessage ssl closes n w,
      seq onMaxLineSizeExceeded (removeDescriptor ssl closes n w),
      many (handleMessage ssl closes n w)],
    mayThrow, maybe (handleMessage ssl closes n w)]))))

/-- A `ParseError` or another `std::runtime_error` is caught, everything else is not. -/
def handleRead : Locking (ServerLock W) :=
  seq mayThrow (either (catching (readLoop ssl closes n w) (remove ssl closes n w))
    (readLoop ssl closes n w))

def handleWriteEmpty : Locking (ServerLock W) :=
  seq (holding (closeQueueMutex w) skip) (maybe (remove ssl closes n w))

def handleEOF : Locking (ServerLock W) := remove ssl closes n w

/-- `Server::remove` -/
def serverRemove : Locking (ServerLock W) :=
  seq (holding workerMapMutex skip) (maybe (remove ssl closes n w))

/-- `Server::Worker::accept`, and that of an `SSLServer`, which asks the filters first -/
def accept : Locking (ServerLock W) :=
  if ssl then
    seq (many (seq (maybe (holding geoIPMutex mayThrow)) mayThrow)) (maybe (all
      [holding sslContextMutex skip, mayThrow, holding clientsMutex skip, mayThrow,
        holding descriptorsMutex mayThrow, holding sslsMutex skip, holding workerMapMutex skip,
        maybe (holding clientsMutex skip)]))
  else
    all [holding clientsMutex skip, mayThrow, holding descriptorsMutex mayThrow,
      holding workerMapMutex skip, maybe (holding clientsMutex skip)]

def conn_readcb : Locking (ServerLock W) := handleRead ssl closes n w

def conn_writecb : Locking (ServerLock W) := maybe (handleWriteEmpty ssl closes n w)

def conn_eventcb : Locking (ServerLock W) :=
  any [handleEOF ssl closes n w, serverRemove ssl closes n w, skip]

def worker_acceptcb : Locking (ServerLock W) :=
  holding (acceptQueueMutex w) (many (accept ssl))

/-- `Worker::work`: the callbacks of worker `w`, in any order -/
def work : Locking (ServerLock W) :=
  many (any [worker_acceptcb ssl w, conn_readcb ssl closes n w, conn_writecb ssl closes n w,
    conn_eventcb ssl closes n w])

end Workers

def queueAccept (w : W) : Locking (ServerLock W) := holding (acceptQueueMutex w) skip

/-- `Server::mainLoop`: the listener hands its connections to these workers. -/
def mainLoop (ws : List W) : Locking (ServerLock W) := all (ws.map queueAccept)

/-- The threads run the listener, which is `none`, and the workers. -/
structure Serving (ssl : Bool) (closes : W → List W)
    (programs : Option W → List (LockOp (ServerLock W))) : Prop where
  worker : ∀ w, ∃ n e, Runs (work ssl closes n w) (programs (some w)) e
  listener : ∃ ws e, Runs (mainLoop ws) (programs none) e

/-! ## The order -/

/-- Only worker `w` locks its `readMutex` and its `closeQueueMutex`. The listener and a worker
    share an accept queue; `clientsMutex` is locked before all that is left. -/
def discipline (W : Type*) : Discipline (Option W) (ServerLock W) (Fin 3) where
  recursive := recursive
  owner
    | .readMutex w | .closeQueueMutex w => some (some w)
    | _ => none
  rank
    | .acceptQueueMutex _ => 0
    | .clientsMutex => 1
    | _ => 2

/-- A client may be closed here: nothing is held that ranks above `clientsMutex`, or
    `clientsMutex` itself is held. -/
def Low (held : List (ServerLock W)) : Prop :=
  ∀ m ∈ held, (discipline W).owner m = none → (discipline W).rank m ≤ 1

section Ranked

variable {t : Option W} {held : List (ServerLock W)} {w : W}

theorem low_cons {m : ServerLock W} (hm : (discipline W).owner m = none →
    (discipline W).rank m ≤ 1) (h : Low held) : Low (m :: held) := by
  intro k hk
  rcases List.mem_cons.mp hk with rfl | hk
  · exact hm
  · exact h k hk

/-- A mutex of the last rank may be locked. -/
theorem Low.allows (h : Low held) {m : ServerLock W} (hm : (discipline W).owner m = none)
    (hrank : (discipline W).rank m = 2) : (discipline W).Allows t held m := by
  refine (Discipline.allows_shared hm).mpr (.inr fun k hk hshared => ?_)
  have hle := h k hk hshared
  rw [hrank]
  omega

private theorem not_two_le_one : ¬ (2 : Fin 3) ≤ 1 := by decide

/-- `clientsMutex` may be locked, for the first time or again. -/
theorem Low.allows_clients (h : Low held) : (discipline W).Allows t held .clientsMutex := by
  refine (Discipline.allows_shared rfl).mpr ?_
  by_cases hmem : ServerLock.clientsMutex ∈ held
  · exact .inl ⟨rfl, hmem⟩
  · refine .inr fun k hk hshared => ?_
    cases k with
    | clientsMutex => exact absurd hk hmem
    | acceptQueueMutex v => exact Nat.zero_lt_one
    | readMutex v => cases hshared
    | closeQueueMutex v => cases hshared
    | descriptorsMutex => exact absurd (h _ hk rfl) not_two_le_one
    | workerMapMutex => exact absurd (h _ hk rfl) not_two_le_one
    | sslContextMutex => exact absurd (h _ hk rfl) not_two_le_one
    | sslsMutex => exact absurd (h _ hk rfl) not_two_le_one
    | geoIPMutex => exact absurd (h _ hk rfl) not_two_le_one

theorem allows_own {m : ServerLock W} (hm : (discipline W).owner m = some (some w))
    (hrec : m.recursive = true) : (discipline W).Allows (some w) held m :=
  (Discipline.allows_own hm).mpr fun _ => hrec

theorem Low.clients (h : Low held) : Low (.clientsMutex :: held) :=
  low_cons (fun _ => le_refl 1) h

theorem Low.readMutex (h : Low held) : Low (.readMutex w :: held) :=
  low_cons (fun heq => by cases heq) h

theorem Low.lookUp (h : Low held) :
    Ranked (discipline W) t held (seq getDescriptor getBufferEvent) :=
  ⟨⟨h.allows_clients, ranked_mayThrow⟩, h.allows rfl rfl, ranked_mayThrow⟩

theorem Low.send (h : Low held) : Ranked (discipline W) t held send := ⟨h.lookUp, trivial⟩

/-- `remove`, if its `closeHandler` passes with `clientsMutex` held. -/
theorem Low.removing (ssl : Bool) (h : Low held) {closeHandler : Locking (ServerLock W)}
    (hclose : Ranked (discipline W) (some w) (.clientsMutex :: held) closeHandler) :
    Ranked (discipline W) (some w) held (removing ssl w closeHandler) := by
  simp only [Locks.removing, ranked_all, List.forall_mem_cons, List.not_mem_nil]
  refine ⟨⟨h.allows rfl rfl, ranked_mayThrow⟩, ⟨h.allows_clients, ranked_mayThrow, ?_⟩,
    ⟨allows_own rfl rfl, trivial⟩, ⟨h.allows rfl rfl, trivial⟩, ?_, fun _ hf => hf.elim⟩
  · exact ranked_maybe.mpr hclose
  · cases ssl with
    | false => trivial
    | true => exact ranked_maybe.mpr ⟨h.allows rfl rfl, trivial⟩

variable {ssl : Bool} {closes : W → List W} (hown : ∀ w, ∀ v ∈ closes w, v = w)

include hown

theorem Low.handlerCalls (h : Low held) {close : W → Locking (ServerLock W)}
    (hclose : Ranked (discipline W) (some w) held (close w)) :
    Ranked (discipline W) (some w) held (handlerCalls closes close w) := by
  simp only [Locks.handlerCalls, Ranked, ranked_any, List.forall_mem_cons, List.not_mem_nil]
  refine ⟨h.send, ranked_mayThrow, fun a ha => ?_, fun _ hf => hf.elim⟩
  obtain ⟨v, hv, rfl⟩ := List.mem_map.mp ha
  rcases List.mem_cons.mp hv with rfl | hv
  · exact hclose
  · rw [hown w v hv]
    exact hclose

theorem Low.close (h : Low held) (n : Nat) :
    Ranked (discipline W) (some w) held (close ssl closes n w) := by
  induction n generalizing held with
  | zero => exact h.send
  | succ n ih =>
    refine ⟨h.send, ranked_maybe.mpr ⟨⟨h.allows rfl rfl, ranked_mayThrow⟩, ?_, ?_⟩⟩
    · exact h.removing ssl ⟨h.clients.handlerCalls hown (ih h.clients), ih h.clients⟩
    · exact ⟨allows_own rfl rfl, trivial⟩

theorem Low.remove (h : Low held) (n : Nat) :
    Ranked (discipline W) (some w) held (remove ssl closes n w) :=
  h.removing ssl
    ⟨h.clients.handlerCalls hown (h.clients.close hown n), h.clients.close hown n⟩

theorem Low.handleMessage (h : Low held) (n : Nat) :
    Ranked (discipline W) (some w) held (handleMessage ssl closes n w) :=
  h.handlerCalls hown (h.close hown n)

theorem ranked_readLoop (n : Nat) :
    Ranked (discipline W) (some w) [] (readLoop ssl closes n w) := by
  have hnone : Low ([] : List (ServerLock W)) := fun _ hm => absurd hm List.not_mem_nil
  have hread : Low [.clientsMutex, .readMutex w] := hnone.readMutex.clients
  have hmessage : Ranked (discipline W) (some w) [.clientsMutex, .readMutex w]
      (handleMessage ssl closes n w) := hread.handleMessage hown n
  refine ⟨allows_own rfl rfl, hnone.readMutex.allows_clients, ranked_mayThrow, ?_⟩
  simp only [Ranked, ranked_all, ranked_any, List.forall_mem_cons, List.not_mem_nil]
  exact ⟨ranked_mayThrow, ⟨hmessage, ⟨hread.send, ⟨hread.allows rfl rfl, ranked_mayThrow⟩,
    hread.remove hown n⟩, hmessage, fun _ hf => hf.elim⟩, ranked_mayThrow,
    ranked_maybe.mpr hmessage, fun _ hf => hf.elim⟩

omit hown in
theorem Low.accept (h : Low held) : Ranked (discipline W) t held (accept ssl) := by
  have hclients : Ranked (discipline W) t held (holding clientsMutex skip) :=
    ⟨h.allows_clients, trivial⟩
  have hdescriptors : Ranked (discipline W) t held (holding descriptorsMutex mayThrow) :=
    ⟨h.allows rfl rfl, ranked_mayThrow⟩
  have hworkerMap : Ranked (discipline W) t held (holding workerMapMutex skip) :=
    ⟨h.allows rfl rfl, trivial⟩
  cases ssl with
  | false =>
    simp only [Locks.accept, Bool.false_eq_true, if_false, ranked_all, List.forall_mem_cons,
      List.not_mem_nil]
    exact ⟨hclients, ranked_mayThrow, hdescriptors, hworkerMap, ranked_maybe.mpr hclients,
      fun _ hf => hf.elim⟩
  | true =>
    refine ⟨⟨ranked_maybe.mpr ⟨h.allows rfl rfl, ranked_mayThrow⟩, ranked_mayThrow⟩,
      ranked_maybe.mpr ?_⟩
    simp only [ranked_all, List.forall_mem_cons, List.not_mem_nil]
    exact ⟨⟨h.allows rfl rfl, trivial⟩, ranked_mayThrow, hclients, ranked_mayThrow, hdescriptors,
      ⟨h.allows rfl rfl, trivial⟩, hworkerMap, ranked_maybe.mpr hclients, fun _ hf => hf.elim⟩

theorem ranked_work (n : Nat) : Ranked (discipline W) (some w) [] (work ssl closes n w) := by
  have hnone : Low ([] : List (ServerLock W)) := fun _ hm => absurd hm List.not_mem_nil
  have hremove : Ranked (discipline W) (some w) [] (remove ssl closes n w) :=
    hnone.remove hown n
  have hread : Ranked (discipline W) (some w) [] (readLoop ssl closes n w) :=
    ranked_readLoop hown n
  simp only [work, Ranked, ranked_any, List.forall_mem_cons, List.not_mem_nil]
  refine ⟨⟨?_, ?_⟩, ⟨ranked_mayThrow, ⟨hread, hremove⟩, hread⟩, ?_, ?_, fun _ hf => hf.elim⟩
  · exact (Discipline.allows_shared rfl).mpr (.inr fun _ hm => absurd hm List.not_mem_nil)
  · exact Low.accept (low_cons (fun _ => Nat.zero_le 1) hnone)
  · exact ranked_maybe.mpr ⟨⟨allows_own rfl rfl, trivial⟩, ranked_maybe.mpr hremove⟩
  · simp only [conn_eventcb, ranked_any, List.forall_mem_cons, List.not_mem_nil]
    exact ⟨hremove, ⟨⟨hnone.allows rfl rfl, trivial⟩, ranked_maybe.mpr hremove⟩, trivial,
      fun _ hf => hf.elim⟩

end Ranked

/-! ## Two workers that wait for each other -/

section Deadlock

variable {ssl : Bool} {closes : W → List W} {v w : W}

/-- `m` is locked, and unlocked again. -/
def lockedOnce (m : ServerLock W) : List (LockOp (ServerLock W)) := [.lock m, .unlock m]

theorem runs_lockedOnce {m : ServerLock W} : Runs (holding m skip) (lockedOnce m) .returned :=
  .holding .skip

theorem runs_mayThrow {m : ServerLock W} : Runs (holding m mayThrow) (lockedOnce m) .returned :=
  .holding .goes_on

/-- What `close` does before it locks the `readMutex` of the client's worker -/
def closeBefore : List (LockOp (ServerLock W)) :=
  lockedOnce clientsMutex ++ lockedOnce descriptorsMutex ++ lockedOnce workerMapMutex ++
    lockedOnce descriptorsMutex ++ lockedOnce clientsMutex

theorem runs_close (ssl : Bool) (closes : W → List W) (v : W) :
    Runs (close ssl closes 1 v)
      (closeBefore ++ (lockedOnce (readMutex v) ++ lockedOnce workerMapMutex)) .returned := by
  have hremove : Runs (removing ssl v (closeWebSocket closes (close ssl closes 0) v))
      (lockedOnce descriptorsMutex ++ (lockedOnce clientsMutex ++ (lockedOnce (readMutex v) ++
        (lockedOnce workerMapMutex ++ [])))) .returned := by
    refine .seq runs_mayThrow (.seq (.holding (.seq .goes_on .not)) (.seq runs_lockedOnce
      (.seq runs_lockedOnce ?_)))
    cases ssl with
    | false => exact .seq .skip .skip
    | true => exact .seq .not .skip
  have hclose : Runs (close ssl closes 1 v) (lockedOnce clientsMutex ++
      lockedOnce descriptorsMutex ++ (lockedOnce workerMapMutex ++ _)) .returned :=
    .seq (.uncaught (.seq runs_mayThrow runs_mayThrow))
      (.maybe (.seq runs_mayThrow (.left hremove)))
  simpa only [closeBefore, List.append_assoc, List.append_nil] using hclose

/-- `handleRead` hands the worker's client one message. -/
theorem runs_handleRead {n : Nat} {ops : List (LockOp (ServerLock W))}
    (h : Runs (handleMessage ssl closes n w) ops .returned) :
    Runs (handleRead ssl closes n w)
      (.lock (readMutex w) :: (.lock clientsMutex :: (ops ++ [.unlock clientsMutex]) ++
        [.unlock (readMutex w)])) .returned := by
  have hbody : Runs (all [mayThrow, any [handleMessage ssl closes n w,
      seq onMaxLineSizeExceeded (removeDescriptor ssl closes n w),
      many (handleMessage ssl closes n w)],
      mayThrow, maybe (handleMessage ssl closes n w)]) ([] ++ (ops ++ [])) .returned :=
    .seq .goes_on (.seq (.left h) (.seq .goes_on (.seq .not .skip)))
  rw [List.nil_append, List.append_nil] at hbody
  exact .seq .goes_on (.right (.holding (.holding (.seq .goes_on hbody.once))))

theorem runs_handleMessage {n : Nat} (hv : v ∈ closes w) {ops : List (LockOp (ServerLock W))}
    (h : Runs (close ssl closes n v) ops .returned) :
    Runs (handleMessage ssl closes n w) ops .returned :=
  Runs.once (.right (.right (.left
    (.any_of_mem (List.mem_map_of_mem (List.mem_cons_of_mem w hv)) h))))

theorem runs_work {n : Nat} {ops : List (LockOp (ServerLock W))}
    (h : Runs (handleRead ssl closes n w) ops .returned) :
    Runs (work ssl closes n w) ops .returned :=
  Runs.once (.right (.left h))

variable [DecidableEq W]

/-- What `handleRead` of worker `w` does from there on -/
def closeAfter (v w : W) : List (LockOp (ServerLock W)) :=
  lockedOnce (readMutex v) ++ lockedOnce workerMapMutex ++
    [.unlock clientsMutex, .unlock (readMutex w)]

/-- Worker `w` closes a client of worker `v`, which handles a message itself; the others do
    nothing. -/
def closingOther (v w : W) (t : Option W) : List (LockOp (ServerLock W)) :=
  if t = some w then
    .lock (readMutex w) :: .lock clientsMutex :: (closeBefore ++ closeAfter v w)
  else if t = some v then
    [.lock (readMutex v), .lock clientsMutex, .unlock clientsMutex, .unlock (readMutex v)]
  else []

theorem serving_closingOther (ssl : Bool) (hv : v ∈ closes w) :
    Serving ssl closes (closingOther v w) := by
  refine ⟨fun u => ⟨1, .returned, ?_⟩, [], .returned, .skip⟩
  unfold closingOther
  split
  · rename_i hu
    obtain rfl := Option.some.inj hu
    have hruns := runs_work (runs_handleRead (runs_handleMessage hv (runs_close ssl closes v)))
    simpa only [closeAfter, List.append_assoc, List.cons_append, List.nil_append] using hruns
  · split
    · rename_i hu
      obtain rfl := Option.some.inj hu
      exact runs_work (runs_handleRead .none)
    · exact .none

/-- `v` holds its `readMutex` and waits for `clientsMutex`. `w` holds that, and has this to do. -/
def bothReading (v w : W) (rest : List (LockOp (ServerLock W))) :
    Threads (Option W) (ServerLock W) where
  todo := Function.update (Function.update (closingOther v w) (some v)
    [.lock clientsMutex, .unlock clientsMutex, .unlock (readMutex v)]) (some w) rest
  mutexes := Function.update (Function.update (Function.update (fun _ => .free) (readMutex v)
    (.owned (some v) 0)) (readMutex w) (.owned (some w) 0)) clientsMutex (.owned (some w) 0)

theorem undisturbed_closeBefore {t : Option W} :
    Undisturbed recursive t (closeBefore : List (LockOp (ServerLock W))) := by
  have hone : ∀ m : ServerLock W, Undisturbed recursive t (lockedOnce m) :=
    fun m => undisturbed_nil.holding
  exact ((((hone _).append (hone _)).append (hone _)).append (hone _)).append (hone _)

theorem reachable_bothReading (hvw : v ≠ w) :
    Reachable (Threads.step recursive) (Threads.start (closingOther v w))
      (bothReading v w (closeAfter v w)) := by
  have hread : ServerLock.readMutex w ≠ .readMutex v := fun h =>
    hvw (ServerLock.readMutex.inj h).symm
  have hfirst : exec (Threads.step recursive) (Threads.start (closingOther v w))
      [some v, some w, some w] = some (bothReading v w (closeBefore ++ closeAfter v w)) := by
    simp [exec, Threads.step, Threads.start, closingOther, hvw, hvw.symm, hread, bothReading,
      RecursiveMutex.lock, Threads.after]
  have hclose := undisturbed_closeBefore (bothReading v w (closeBefore ++ closeAfter v w))
    (closeAfter v w) (Function.update_self ..) fun m hm => by
      have hm : m = clientsMutex ∨ m = descriptorsMutex ∨ m = workerMapMutex := by
        simp only [closeBefore, lockedOnce, List.mem_append, List.mem_cons, LockOp.lock.injEq,
          reduceCtorEq, List.not_mem_nil, or_false] at hm
        tauto
      -- of these only `clientsMutex` is held, by `w` itself
      obtain rfl | rfl | rfl := hm
      · exact ⟨rfl, fun u hu => by simp [bothReading, RecursiveMutex.depth, hu.symm]⟩
      · exact ⟨rfl, fun u _ => by simp [bothReading, RecursiveMutex.depth]⟩
      · exact ⟨rfl, fun u _ => by simp [bothReading, RecursiveMutex.depth]⟩
  refine ⟨_, exec_append hfirst (hclose.trans ?_)⟩
  rw [bothReading, Function.update_idem]
  rfl

/-- Each of the two waits for what the other holds, and everybody else has finished. -/
theorem bothReading_stuck (hvw : v ≠ w) (t : Option W) :
    (bothReading v w (closeAfter v w)).step recursive t = none := by
  have hread : ServerLock.readMutex v ≠ .readMutex w := fun h => hvw (ServerLock.readMutex.inj h)
  unfold Threads.step
  by_cases htw : t = some w
  · subst htw
    simp [bothReading, closeAfter, lockedOnce, hread, RecursiveMutex.lock, hvw]
  · by_cases htv : t = some v
    · subst htv
      simp [bothReading, hvw, RecursiveMutex.lock, hvw.symm]
    · simp [bothReading, htw, htv, closingOther]

end Deadlock

/-! ## The server -/

section Server

variable [DecidableEq W] {ssl : Bool} {closes : W → List W}
  {programs : Option W → List (LockOp (ServerLock W))}

theorem Serving.ranked (h : Serving ssl closes programs) (hown : ∀ w, ∀ v ∈ closes w, v = w)
    (t : Option W) : Threads.Ranked (discipline W) t [] (programs t) := by
  cases t with
  | none =>
    obtain ⟨ws, e, hruns⟩ := h.listener
    refine hruns.ranked ?_
    simp only [mainLoop, ranked_all, List.forall_mem_map]
    intro w _
    exact ⟨(Discipline.allows_shared rfl).mpr (.inr fun _ hm => absurd hm List.not_mem_nil),
      trivial⟩
  | some w =>
    obtain ⟨n, e, hruns⟩ := h.worker w
    exact hruns.ranked (ranked_work hown n)

/-- In every state of every interleaving a thread that has not finished can go on, or waits for
    one that can. -/
def NeverStuck (programs : Option W → List (LockOp (ServerLock W))) : Prop :=
  ∀ s, Reachable (Threads.step recursive) (Threads.start programs) s → ∀ t, s.todo t ≠ [] →
    ∃ u, Relation.ReflTransGen s.WaitsFor t u ∧ (s.step recursive u).isSome

/-- No thread is ever stuck exactly if every handler closes clients of its own worker only. -/
theorem not_stuck_iff (ssl : Bool) (closes : W → List W) :
    (∀ programs, Serving ssl closes programs → NeverStuck programs) ↔
      ∀ w, ∀ v ∈ closes w, v = w := by
  constructor
  · intro h w v hv
    by_contra hvw
    obtain ⟨u, -, hcan⟩ := h _ (serving_closingOther ssl hv) _
      (reachable_bothReading hvw) (some w) (by simp [bothReading, closeAfter, lockedOnce])
    rw [bothReading_stuck hvw] at hcan
    cases hcan
  · intro hown programs hserving s hreach t ht
    exact Threads.not_stuck (d := discipline W) (hserving.ranked hown) hreach ht

/-- However far the threads have come, they can all finish. -/
theorem callbacks_return [Finite W] (hserving : Serving ssl closes programs)
    (hown : ∀ w, ∀ v ∈ closes w, v = w) {s : Threads (Option W) (ServerLock W)}
    (hreach : Reachable (Threads.step recursive) (Threads.start programs) s) :
    ∃ ts s', exec (Threads.step recursive) s ts = some s' ∧ ∀ t, s'.todo t = [] :=
  Threads.can_finish (d := discipline W) (hserving.ranked hown) hreach

/-- Every worker closes the client that sent it a message; none of them has started yet. -/
def closingOwn : Option Bool → List (LockOp (ServerLock Bool))
  | none => lockedOnce (acceptQueueMutex true) ++ []
  | some w => .lock (readMutex w) :: (.lock clientsMutex :: ((closeBefore ++
      (lockedOnce (readMutex w) ++ lockedOnce workerMapMutex)) ++ [.unlock clientsMutex]) ++
        [.unlock (readMutex w)])

theorem callbacks_return_closingOwn :
    ∃ ts s', exec (Threads.step recursive) (Threads.start closingOwn) ts = some s' ∧
      ∀ t, s'.todo t = [] := by
  have hserving : Serving false (fun w => [w]) closingOwn :=
    ⟨fun w => ⟨1, .returned, runs_work (runs_handleRead (runs_handleMessage
      (List.mem_singleton.mpr rfl) (runs_close false _ w)))⟩,
      [true], .returned, .seq runs_lockedOnce .skip⟩
  exact callbacks_return hserving (fun w v hv => List.mem_singleton.mp hv) ⟨[], rfl⟩

end Server

end Locks

end Algiz.Net
