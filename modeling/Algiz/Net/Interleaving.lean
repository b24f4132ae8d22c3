/-
  Accepts and removals of different connections, one locked section at a time.

  A connection is known by its descriptor: `phase fd` is how far `accept` or `remove` has come
  with the socket `fd`. The sections of different connections interleave in any order; those of
  one connection follow each other, and its `fd` is free to be accepted again only when
  `bufferevent_free` has closed it. In every reachable state the maps are consistent, and no
  section has thrown (`reachable_mapsHold`).
-/
import Algiz.Lib.Transition
import Algiz.Net.Server

namespace Algiz.Net

open Algiz.Lib

variable {Ptr W : Type*}

/-- How far the connection on a socket has come. -/
inductive Phase (Ptr : Type*) where
  /-- no socket is open at this descriptor -/
  | closed
  /-- `accept`: the client has its id -/
  | registered (id : Int)
  /-- `accept`: `bufferevent_socket_new` returned `be` -/
  | allocated (id : Int) (be : Ptr)
  /-- `accept`: `be` is in `bufferEvents` and `bufferEventDescriptors` -/
  | entered (id : Int) (be : Ptr)
  /-- `accept`: `be` is in `workerMap` -/
  | mapped (id : Int) (be : Ptr)
  /-- `accept` has returned -/
  | live (be : Ptr)
  /-- `remove`: `be` has left the two maps, where it stood with `descriptor` -/
  | left (be : Ptr) (descriptor : Int)
  /-- `remove`: the client is gone from the maps of ids -/
  | unregistered (be : Ptr) (descriptor : Int)
  /-- `remove`: the read buffer is gone -/
  | bufferless (be : Ptr)
  /-- `remove`: `be` has left `workerMap` -/
  | unmapped (be : Ptr)
  /-- `accept` threw "buffer_event is null": the socket stays open, and nobody reads it -/
  | abandoned
  /-- a section threw `e` -/
  | threw (e : Exception)

/-- The bufferevent that is allocated for the socket. -/
def Phase.pointer : Phase Ptr → Option Ptr
  | .closed | .registered _ | .abandoned | .threw _ => none
  | .allocated _ be | .entered _ be | .mapped _ be | .live be => some be
  | .left be _ | .unregistered be _ | .bufferless be | .unmapped be => some be

/-- The maps of the server, what is under way on each socket, and the addresses at which a
    bufferevent is allocated. -/
structure System (Ptr W : Type*) where
  server : Server Ptr W := {}
  phase : Int → Phase Ptr := fun _ => .closed
  allocated : Finset Ptr := ∅

/-- The next section of the connection on socket `fd`. -/
inductive Section (Ptr W : Type*) where
  /-- `accept(fd)` begins; `pick` is the first element of `freePool` -/
  | register (fd pick : Int)
  /-- `bufferevent_socket_new` returns; `none` is a null pointer -/
  | allocate (fd : Int) (result : Option Ptr)
  | enter (fd : Int)
  | map (fd : Int) (w : W)
  | add (fd : Int)
  /-- `handleRead` makes the read buffer of a live connection -/
  | read (fd : Int)
  /-- `remove` of the connection's bufferevent begins -/
  | leave (fd : Int)
  | unregister (fd : Int)
  | eraseReadBuffer (fd : Int)
  | unmap (fd : Int)
  /-- `bufferevent_free`, which closes `fd` -/
  | free (fd : Int)

namespace System

/-- The connection on `fd` has come to phase `p` with the maps `server`. -/
def advance (s : System Ptr W) (fd : Int) (server : Server Ptr W) (p : Phase Ptr) :
    System Ptr W :=
  { s with server := server, phase := Function.update s.phase fd p }

variable [DecidableEq Ptr]

/-- One section. `bufferevent_socket_new` returns an address at which no bufferevent is
    allocated. -/
def step (s : System Ptr W) : Section Ptr W → Option (System Ptr W)
  | .register fd pick =>
    match s.phase fd with
    | .closed => (s.server.registerClient fd pick).map fun (id, server) =>
        s.advance fd server (.registered id)
    | _ => none
  | .allocate fd result =>
    match s.phase fd with
    | .registered id =>
      match result with
      | none => some (s.advance fd s.server .abandoned)
      | some be =>
        if be ∈ s.allocated then none
        else some { s.advance fd s.server (.allocated id be) with
          allocated := insert be s.allocated }
    | _ => none
  | .enter fd =>
    match s.phase fd with
    | .allocated id be =>
      match s.server.enterBufferEvent fd be with
      | .ok server => some (s.advance fd server (.entered id be))
      | .error e => some (s.advance fd s.server (.threw e))
    | _ => none
  | .map fd w =>
    match s.phase fd with
    | .entered id be => some (s.advance fd (s.server.enterWorker be w) (.mapped id be))
    | _ => none
  | .add fd =>
    match s.phase fd with
    | .mapped id be => some (s.advance fd (s.server.addClient id) (.live be))
    | _ => none
  | .read fd =>
    match s.phase fd with
    | .live be => some (s.advance fd
        { s.server with readBuffers := insert fd s.server.readBuffers } (.live be))
    | _ => none
  | .leave fd =>
    match s.phase fd with
    | .live be =>
      match s.server.leaveBufferEvent be with
      | .ok (descriptor, server) => some (s.advance fd server (.left be descriptor))
      | .error e => some (s.advance fd s.server (.threw e))
    | _ => none
  | .unregister fd =>
    match s.phase fd with
    | .left be descriptor =>
      match s.server.unregisterClient descriptor with
      | .ok server => some (s.advance fd server (.unregistered be descriptor))
      | .error e => some (s.advance fd s.server (.threw e))
    | _ => none
  | .eraseReadBuffer fd =>
    match s.phase fd with
    | .unregistered be descriptor =>
      some (s.advance fd (s.server.eraseReadBuffer descriptor) (.bufferless be))
    | _ => none
  | .unmap fd =>
    match s.phase fd with
    | .bufferless be => some (s.advance fd (s.server.leaveWorker be) (.unmapped be))
    | _ => none
  | .free fd =>
    match s.phase fd with
    | .unmapped be => some { s.advance fd s.server .closed with
        allocated := s.allocated.erase be }
    | _ => none

end System

/-! ## The invariant -/

/-- What `clients` and `bufferEvents` hold for the socket `fd` in each phase. No phase of a
    connection is one where a section threw. -/
def Agrees (client : Option Int) (event : Option Ptr) (fd : Int) : Phase Ptr → Prop
  | .closed | .bufferless _ | .unmapped _ => client = none ∧ event = none
  | .registered id | .allocated id _ => client = some id ∧ event = none
  | .entered id be | .mapped id be => client = some id ∧ event = some be
  | .live be => client ≠ none ∧ event = some be
  | .left _ descriptor => descriptor = fd ∧ client ≠ none ∧ event = none
  | .unregistered _ descriptor => descriptor = fd ∧ client = none ∧ event = none
  | .abandoned => client ≠ none ∧ event = none
  | .threw _ => False

/-- Every socket's bufferevent is allocated, and no two sockets share one. -/
structure Heap (phase : Int → Phase Ptr) (allocated : Finset Ptr) : Prop where
  held : ∀ fd be, (phase fd).pointer = some be → be ∈ allocated
  distinct : ∀ fd fd' be,
    (phase fd).pointer = some be → (phase fd').pointer = some be → fd = fd'

/-- The invariant of the interleavings. -/
structure Consistent (s : System Ptr W) : Prop where
  ids : s.server.IdsConsistent
  events : Inverse s.server.bufferEvents s.server.bufferEventDescriptors
  agrees : ∀ fd, Agrees (s.server.clients fd) (s.server.bufferEvents fd) fd (s.phase fd)
  heap : Heap s.phase s.allocated

section Heap

variable {phase : Int → Phase Ptr} {allocated : Finset Ptr} {fd : Int} {old p : Phase Ptr}

/-- A step that keeps the socket's bufferevent, or forgets it. -/
theorem Heap.update (hh : Heap phase allocated) (hold : phase fd = old)
    (hp : ∀ be, p.pointer = some be → old.pointer = some be) :
    Heap (Function.update phase fd p) allocated := by
  have hback : ∀ x be, (Function.update phase fd p x).pointer = some be →
      (phase x).pointer = some be := by
    intro x be hx
    by_cases hxfd : x = fd
    · subst hxfd
      rw [Function.update_self] at hx
      rw [hold]
      exact hp be hx
    · rwa [Function.update_of_ne hxfd] at hx
  refine ⟨fun x be hx => hh.held x be (hback x be hx), fun x y be hx hy => ?_⟩
  exact hh.distinct x y be (hback x be hx) (hback y be hy)

variable [DecidableEq Ptr]

/-- A bufferevent allocated at a new address. -/
theorem Heap.allocate (hh : Heap phase allocated) {be : Ptr} (hbe : be ∉ allocated)
    (hp : p.pointer = some be) : Heap (Function.update phase fd p) (insert be allocated) := by
  have hother : ∀ x b, x ≠ fd → (Function.update phase fd p x).pointer = some b →
      (phase x).pointer = some b ∧ b ∈ allocated := by
    intro x b hx hb
    rw [Function.update_of_ne hx] at hb
    exact ⟨hb, hh.held x b hb⟩
  have hself : ∀ b, (Function.update phase fd p fd).pointer = some b → b = be := by
    intro b hb
    rw [Function.update_self, hp] at hb
    exact (Option.some.inj hb).symm
  constructor
  · intro x b hb
    by_cases hx : x = fd
    · subst hx
      rw [hself b hb]
      exact Finset.mem_insert_self _ _
    · exact Finset.mem_insert_of_mem (hother x b hx hb).2
  · intro x y b hbx hby
    by_cases hx : x = fd
    · by_cases hy : y = fd
      · rw [hx, hy]
      · subst hx
        have hmem := (hother y b hy hby).2
        rw [hself b hbx] at hmem
        exact absurd hmem hbe
    · by_cases hy : y = fd
      · subst hy
        have hmem := (hother x b hx hbx).2
        rw [hself b hby] at hmem
        exact absurd hmem hbe
      · exact hh.distinct x y b (hother x b hx hbx).1 (hother y b hy hby).1

/-- The socket's bufferevent is freed. -/
theorem Heap.free (hh : Heap phase allocated) {be : Ptr} (hbe : (phase fd).pointer = some be)
    (hp : p.pointer = none) : Heap (Function.update phase fd p) (allocated.erase be) := by
  have hother : ∀ x b, (Function.update phase fd p x).pointer = some b →
      x ≠ fd ∧ (phase x).pointer = some b := by
    intro x b hb
    by_cases hx : x = fd
    · subst hx
      rw [Function.update_self, hp] at hb
      exact nomatch hb
    · rw [Function.update_of_ne hx] at hb
      exact ⟨hx, hb⟩
  constructor
  · intro x b hb
    obtain ⟨hx, hbx⟩ := hother x b hb
    refine Finset.mem_erase.mpr ⟨?_, hh.held x b hbx⟩
    rintro rfl
    exact hx (hh.distinct x fd b hbx hbe)
  · intro x y b hbx hby
    exact hh.distinct x y b (hother x b hbx).2 (hother y b hby).2

end Heap

/-- A section touches the entries of its own socket only. -/
theorem agrees_advance {s : System Ptr W} {server : Server Ptr W} {fd : Int} {p : Phase Ptr}
    (hs : Consistent s) (hclients : ∀ x, x ≠ fd → server.clients x = s.server.clients x)
    (hevents : ∀ x, x ≠ fd → server.bufferEvents x = s.server.bufferEvents x)
    (hp : Agrees (server.clients fd) (server.bufferEvents fd) fd p) (x : Int) :
    Agrees (server.clients x) (server.bufferEvents x) x (Function.update s.phase fd p x) := by
  by_cases hx : x = fd
  · subst hx
    rw [Function.update_self]
    exact hp
  · rw [Function.update_of_ne hx, hclients x hx, hevents x hx]
    exact hs.agrees x

/-- An allocated bufferevent that its socket has not entered in the maps is in neither. -/
theorem not_entered {s : System Ptr W} (hs : Consistent s) {fd : Int} {be : Ptr}
    (hbe : (s.phase fd).pointer = some be) (hnone : s.server.bufferEvents fd = none) :
    s.server.bufferEventDescriptors be = none := by
  by_contra hsome
  obtain ⟨x, hx⟩ := Option.ne_none_iff_exists'.mp hsome
  have hentry : s.server.bufferEvents x = some be := (hs.events x be).mpr hx
  have hagrees := hs.agrees x
  rw [hentry] at hagrees
  -- only a phase that holds the same bufferevent agrees with the entry
  have hpointer : (s.phase x).pointer = some be := by
    cases hphase : s.phase x <;> rw [hphase] at hagrees <;> simp_all [Agrees, Phase.pointer]
  have hxfd := hs.heap.distinct x fd be hpointer hbe
  rw [hxfd, hnone] at hentry
  exact nomatch hentry

/-! ## The sections keep the invariant -/

section Steps

variable {s : System Ptr W} (hs : Consistent s)
include hs

theorem agrees_at {fd : Int} {p : Phase Ptr} (hphase : s.phase fd = p) :
    Agrees (s.server.clients fd) (s.server.bufferEvents fd) fd p := by
  have hagrees := hs.agrees fd
  rwa [hphase] at hagrees

/-- A section that leaves the maps of ids and of bufferevents as they are. -/
theorem consistent_same {server : Server Ptr W} {fd : Int} {old p : Phase Ptr}
    (hphase : s.phase fd = old) (hids : server.IdsConsistent)
    (hclients : server.clients = s.server.clients)
    (hevents : server.bufferEvents = s.server.bufferEvents)
    (hdescriptors : server.bufferEventDescriptors = s.server.bufferEventDescriptors)
    (hp : Agrees (s.server.clients fd) (s.server.bufferEvents fd) fd p)
    (hpointer : ∀ be, p.pointer = some be → old.pointer = some be) :
    Consistent (s.advance fd server p) := by
  refine ⟨hids, ?_, ?_, hs.heap.update hphase hpointer⟩
  · show Inverse server.bufferEvents server.bufferEventDescriptors
    rw [hevents, hdescriptors]
    exact hs.events
  · refine agrees_advance hs (fun x _ => congrFun hclients x) (fun x _ => congrFun hevents x) ?_
    show Agrees (server.clients fd) (server.bufferEvents fd) fd p
    rw [hclients, hevents]
    exact hp

variable [DecidableEq Ptr]

theorem step_register {fd pick : Int} {t : System Ptr W}
    (hstep : s.step (.register fd pick) = some t) : Consistent t := by
  rw [System.step] at hstep
  split at hstep
  · rename_i hphase
    have hagrees := agrees_at hs hphase
    obtain ⟨⟨id, server⟩, hreg, rfl⟩ := Option.map_eq_some_iff.mp hstep
    have hids := Server.registerClient_ids hs.ids hagrees.1 hreg
    have hmaps : server.clients = s.server.clients.set fd id ∧
        server.bufferEvents = s.server.bufferEvents ∧
        server.bufferEventDescriptors = s.server.bufferEventDescriptors := by
      obtain ⟨-, ⟨-, -, rfl⟩ | ⟨-, rfl⟩⟩ := Server.registerClient_cases hs.ids hreg
      · exact ⟨rfl, rfl, rfl⟩
      · exact ⟨rfl, rfl, rfl⟩
    obtain ⟨hclients, hevents, hdescriptors⟩ := hmaps
    refine ⟨hids, ?_, ?_, hs.heap.update hphase nofun⟩
    · show Inverse server.bufferEvents server.bufferEventDescriptors
      rw [hevents, hdescriptors]
      exact hs.events
    · refine agrees_advance hs (fun x hx => ?_) (fun x _ => congrFun hevents x) ?_
      · show server.clients x = s.server.clients x
        rw [hclients, Map.set_of_ne _ hx]
      · show Agrees (server.clients fd) (server.bufferEvents fd) fd (.registered id)
        rw [hclients, hevents, Map.set_self]
        exact ⟨rfl, hagrees.2⟩
  · exact nomatch hstep

theorem step_allocate {fd : Int} {result : Option Ptr} {t : System Ptr W}
    (hstep : s.step (.allocate fd result) = some t) : Consistent t := by
  rw [System.step] at hstep
  split at hstep
  · rename_i id hphase
    have hagrees := agrees_at hs hphase
    cases result with
    | none =>
      obtain rfl := Option.some.inj hstep
      refine consistent_same hs hphase hs.ids rfl rfl rfl ⟨?_, hagrees.2⟩ nofun
      rw [hagrees.1]
      exact nofun
    | some be =>
      dsimp only at hstep
      by_cases hmem : be ∈ s.allocated
      · rw [if_pos hmem] at hstep
        exact nomatch hstep
      · rw [if_neg hmem] at hstep
        obtain rfl := Option.some.inj hstep
        refine ⟨hs.ids, hs.events, ?_, hs.heap.allocate hmem rfl⟩
        exact agrees_advance hs (fun _ _ => rfl) (fun _ _ => rfl) hagrees
  · exact nomatch hstep

theorem step_enter {fd : Int} {t : System Ptr W} (hstep : s.step (.enter fd) = some t) :
    Consistent t := by
  rw [System.step] at hstep
  split at hstep
  · rename_i id be hphase
    have hagrees := agrees_at hs hphase
    have hnone := not_entered hs (by rw [hphase]; rfl) hagrees.2
    -- the check finds no entry: the exception is not thrown
    have henter : s.server.enterBufferEvent fd be = .ok { s.server with
        bufferEvents := s.server.bufferEvents.set fd be
        bufferEventDescriptors := s.server.bufferEventDescriptors.set be fd } := by
      unfold Server.enterBufferEvent
      rw [if_neg (by rw [hagrees.2]; exact Bool.noConfusion), Map.emplace_of_none hagrees.2,
        Map.emplace_of_none hnone]
    rw [henter] at hstep
    obtain rfl := Option.some.inj hstep
    refine ⟨hs.ids.congr rfl rfl rfl rfl, hs.events.set hagrees.2 hnone, ?_,
      hs.heap.update hphase fun _ h => h⟩
    refine agrees_advance hs (fun _ _ => rfl) (fun x hx => Map.set_of_ne _ hx be) ?_
    exact ⟨hagrees.1, Map.set_self ..⟩
  · exact nomatch hstep

theorem step_map {fd : Int} {w : W} {t : System Ptr W} (hstep : s.step (.map fd w) = some t) :
    Consistent t := by
  rw [System.step] at hstep
  split at hstep
  · rename_i id be hphase
    have hagrees := agrees_at hs hphase
    obtain rfl := Option.some.inj hstep
    exact consistent_same hs hphase (hs.ids.congr rfl rfl rfl rfl) rfl rfl rfl hagrees fun _ h => h
  · exact nomatch hstep

theorem step_add {fd : Int} {t : System Ptr W} (hstep : s.step (.add fd) = some t) :
    Consistent t := by
  rw [System.step] at hstep
  split at hstep
  · rename_i id be hphase
    have hagrees := agrees_at hs hphase
    obtain rfl := Option.some.inj hstep
    refine consistent_same hs hphase (hs.ids.congr rfl rfl rfl rfl) rfl rfl rfl
      ⟨?_, hagrees.2⟩ fun _ h => h
    rw [hagrees.1]
    exact nofun
  · exact nomatch hstep

theorem step_read {fd : Int} {t : System Ptr W} (hstep : s.step (.read fd) = some t) :
    Consistent t := by
  rw [System.step] at hstep
  split at hstep
  · rename_i be hphase
    have hagrees := agrees_at hs hphase
    obtain rfl := Option.some.inj hstep
    exact consistent_same hs hphase (hs.ids.congr rfl rfl rfl rfl) rfl rfl rfl hagrees fun _ h => h
  · exact nomatch hstep

theorem step_leave {fd : Int} {t : System Ptr W} (hstep : s.step (.leave fd) = some t) :
    Consistent t := by
  rw [System.step] at hstep
  split at hstep
  · rename_i be hphase
    have hagrees := agrees_at hs hphase
    -- the lookup finds this socket
    have hfd : s.server.bufferEventDescriptors be = some fd := (hs.events fd be).mp hagrees.2
    rw [Server.leaveBufferEvent, hfd] at hstep
    obtain rfl := Option.some.inj hstep
    refine ⟨hs.ids.congr rfl rfl rfl rfl, hs.events.erase hagrees.2, ?_,
      hs.heap.update hphase fun _ h => h⟩
    refine agrees_advance hs (fun _ _ => rfl) (fun x hx => Map.erase_of_ne _ hx) ?_
    exact ⟨rfl, hagrees.1, Map.erase_self ..⟩
  · exact nomatch hstep

theorem step_unregister {fd : Int} {t : System Ptr W}
    (hstep : s.step (.unregister fd) = some t) : Consistent t := by
  rw [System.step] at hstep
  split at hstep
  · rename_i be descriptor hphase
    have hagrees := agrees_at hs hphase
    obtain ⟨rfl, hclient, hevent⟩ := hagrees
    cases hunregister : s.server.unregisterClient descriptor with
    | error e =>
      -- the lookup finds the client
      unfold Server.unregisterClient at hunregister
      cases hfound : s.server.clients descriptor with
      | none => exact absurd hfound hclient
      | some id =>
        rw [hfound] at hunregister
        exact nomatch hunregister
    | ok server =>
      rw [hunregister] at hstep
      obtain rfl := Option.some.inj hstep
      have hids := Server.unregisterClient_ids hs.ids hunregister
      obtain ⟨id, -, rfl⟩ := Server.unregisterClient_cases hunregister
      refine ⟨hids, hs.events, ?_, hs.heap.update hphase fun _ h => h⟩
      refine agrees_advance hs (fun x hx => Map.erase_of_ne _ hx) (fun _ _ => rfl) ?_
      exact ⟨rfl, Map.erase_self .., hevent⟩
  · exact nomatch hstep

theorem step_eraseReadBuffer {fd : Int} {t : System Ptr W}
    (hstep : s.step (.eraseReadBuffer fd) = some t) : Consistent t := by
  rw [System.step] at hstep
  split at hstep
  · rename_i be descriptor hphase
    have hagrees := agrees_at hs hphase
    obtain rfl := Option.some.inj hstep
    exact consistent_same hs hphase (hs.ids.congr rfl rfl rfl rfl) rfl rfl rfl hagrees.2
      fun _ h => h
  · exact nomatch hstep

theorem step_unmap {fd : Int} {t : System Ptr W} (hstep : s.step (.unmap fd) = some t) :
    Consistent t := by
  rw [System.step] at hstep
  split at hstep
  · rename_i be hphase
    have hagrees := agrees_at hs hphase
    obtain rfl := Option.some.inj hstep
    exact consistent_same hs hphase (hs.ids.congr rfl rfl rfl rfl) rfl rfl rfl hagrees fun _ h => h
  · exact nomatch hstep

theorem step_free {fd : Int} {t : System Ptr W} (hstep : s.step (.free fd) = some t) :
    Consistent t := by
  rw [System.step] at hstep
  split at hstep
  · rename_i be hphase
    have hagrees := agrees_at hs hphase
    obtain rfl := Option.some.inj hstep
    refine ⟨hs.ids, hs.events, ?_, hs.heap.free (by rw [hphase]; rfl) rfl⟩
    exact agrees_advance hs (fun _ _ => rfl) (fun _ _ => rfl) hagrees
  · exact nomatch hstep

/-- Every section keeps the invariant. -/
theorem step_consistent {e : Section Ptr W} {t : System Ptr W} (hstep : s.step e = some t) :
    Consistent t := by
  cases e with
  | register fd pick => exact step_register hs hstep
  | allocate fd result => exact step_allocate hs hstep
  | enter fd => exact step_enter hs hstep
  | map fd w => exact step_map hs hstep
  | add fd => exact step_add hs hstep
  | read fd => exact step_read hs hstep
  | leave fd => exact step_leave hs hstep
  | unregister fd => exact step_unregister hs hstep
  | eraseReadBuffer fd => exact step_eraseReadBuffer hs hstep
  | unmap fd => exact step_unmap hs hstep
  | free fd => exact step_free hs hstep

end Steps

/-! ## Reachable states -/

theorem consistent_init : Consistent ({} : System Ptr W) := by
  refine ⟨Server.idsConsistent_init, ?_, fun _ => ⟨rfl, rfl⟩, ⟨nofun, nofun⟩⟩
  intro fd be
  exact iff_of_false nofun nofun

/-- What holds of the maps in every reachable state, also between the sections of an accept or a
    removal. -/
structure MapsHold (s : System Ptr W) : Prop where
  /-- `clients` and `descriptors` are inverse to each other -/
  ids : Inverse s.server.clients s.server.descriptors
  /-- no two connections share an id -/
  unshared : ∀ fd fd' id, s.server.clients fd = some id → s.server.clients fd' = some id →
    fd = fd'
  /-- a free id has no descriptor -/
  disjoint : ∀ id ∈ s.server.freePool, s.server.descriptors id = none
  /-- the ids up to `lastClient` are the free ones and those with a descriptor -/
  exact : ∀ id, id ∈ s.server.freePool ∨ (s.server.descriptors id).isSome ↔
    0 ≤ id ∧ id ≤ s.server.lastClient
  /-- `bufferEvents` and `bufferEventDescriptors` are inverse to each other -/
  events : Inverse s.server.bufferEvents s.server.bufferEventDescriptors
  /-- no section has thrown, "already has a bufferevent struct" or anything else -/
  noThrow : ∀ fd e, s.phase fd ≠ .threw e

theorem Consistent.mapsHold {s : System Ptr W} (hs : Consistent s) : MapsHold s := by
  refine ⟨hs.ids.inverse, fun fd fd' id h h' => ?_, hs.ids.disjoint, hs.ids.exact, hs.events,
    fun fd e hphase => ?_⟩
  · exact hs.ids.inverse.injective h h'
  · have hagrees := hs.agrees fd
    have hagrees := agrees_at hs hphase
    exact hagrees

/-- For every interleaving of the sections of accepts and removals. -/
theorem reachable_mapsHold [DecidableEq Ptr] {s : System Ptr W}
    (hreach : Reachable System.step {} s) :
    MapsHold s :=
  (hreach.invariant (fun _ _ _ hs hstep => step_consistent hs hstep) consistent_init).mapsHold

/-- Two accepts, the second in the middle of the first, and a removal after which the id of the
    first connection is free again. -/
def twoConnections : List (Section Nat Unit) :=
  [.register 5 0, .register 6 0, .allocate 6 (some 100), .allocate 5 (some 200), .enter 5,
    .map 5 (), .add 5, .read 5, .leave 5, .enter 6, .unregister 5, .eraseReadBuffer 5, .unmap 5,
    .free 5, .register 5 0]

theorem mapsHold_twoConnections :
    MapsHold ((exec System.step ({} : System Nat Unit) twoConnections).get rfl) :=
  reachable_mapsHold ⟨twoConnections, (Option.some_get _).symm⟩

end Algiz.Net
