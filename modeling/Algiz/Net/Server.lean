/-
  The maps of a `Server`, and the locked sections of `Worker::accept` and `Worker::remove`.

  Each definition here is what one critical section (or one call of libevent between two of them)
  does to the maps. Descriptors and client ids are ints; the address of a bufferevent is an
  element of `Ptr`, a worker one of `W`. `++lastClient` does not overflow: every id up to
  `lastClient` is free or has a descriptor of its own, and there are fewer than 2^31 of those.
-/
import Mathlib.Data.Finset.Basic
import Mathlib.Data.Int.Order.Basic
import Algiz.Lib.Map
import Algiz.Net.Connection

namespace Algiz.Net

open Algiz.Lib

/-- The maps of `Server`, and the descriptors that have a read buffer in some worker. -/
structure Server (Ptr W : Type*) where
  lastClient : Int := -1
  clients : Map Int Int := fun _ => none
  freePool : Finset Int := ∅
  descriptors : Map Int Int := fun _ => none
  allClients : Finset Int := ∅
  bufferEvents : Map Int Ptr := fun _ => none
  bufferEventDescriptors : Map Ptr Int := fun _ => none
  workerMap : Map Ptr W := fun _ => none
  readBuffers : Finset Int := ∅

namespace Server

variable {Ptr W : Type*}

/-! ## The sections of `accept` -/

/-- Which id the next connection gets. `freePool` is an `unordered_set`, so `*freePool.begin()`
    is whichever of its elements comes first there: `pick`. -/
def chooseClient (pick : Int) (s : Server Ptr W) : Option (Int × Server Ptr W) :=
  if s.freePool = ∅ then
    some (s.lastClient + 1, { s with lastClient := s.lastClient + 1 })
  else if pick ∈ s.freePool then some (pick, { s with freePool := s.freePool.erase pick })
  else none

/-- The first section: the id, `descriptors.emplace(new_client, new_fd)` and
    `clients[new_fd] = new_client`. -/
def registerClient (fd : Int) (pick : Int) (s : Server Ptr W) :
    Option (Int × Server Ptr W) :=
  (s.chooseClient pick).map fun (id, s) =>
    (id, { s with
      descriptors := s.descriptors.emplace id fd
      clients := s.clients.set fd id })

/-- The text of the exception that `accept` throws under `descriptorsMutex`. -/
def alreadyHasText (fd : Int) : Bytes :=
  ascii ("File descriptor " ++ toString fd ++ " already has a bufferevent struct")

/-- The section under `descriptorsMutex`. -/
def enterBufferEvent [DecidableEq Ptr] (fd : Int) (be : Ptr) (s : Server Ptr W) :
    Except Exception (Server Ptr W) :=
  if (s.bufferEvents fd).isSome then .error (.runtimeError (alreadyHasText fd))
  else .ok { s with
    bufferEvents := s.bufferEvents.emplace fd be
    bufferEventDescriptors := s.bufferEventDescriptors.emplace be fd }

/-- `workerMap.emplace(buffer_event, shared_from_this())` -/
def enterWorker [DecidableEq Ptr] (be : Ptr) (w : W) (s : Server Ptr W) : Server Ptr W :=
  { s with workerMap := s.workerMap.emplace be w }

/-- `addClient`: `getClients().try_emplace(new_client, ...)`. -/
def addClient (id : Int) (s : Server Ptr W) : Server Ptr W :=
  { s with allClients := insert id s.allClients }

/-! ## The sections of `remove` -/

/-- The section under `descriptorsMutex`. -/
def leaveBufferEvent [DecidableEq Ptr] (be : Ptr) (s : Server Ptr W) :
    Except Exception (Int × Server Ptr W) :=
  match s.bufferEventDescriptors be with
  | none => .error .outOfRange
  | some fd => .ok (fd, { s with
      bufferEventDescriptors := s.bufferEventDescriptors.erase be
      bufferEvents := s.bufferEvents.erase fd })

/-- The section under `clientsMutex`. The close handler is called there before the erasures; it
    reaches the maps through `Server::close` only, which no longer finds this connection's
    bufferevent. -/
def unregisterClient (fd : Int) (s : Server Ptr W) : Except Exception (Server Ptr W) :=
  match s.clients fd with
  | none => .error .outOfRange
  | some id => .ok { s with
      allClients := s.allClients.erase id
      freePool := insert id s.freePool
      descriptors := s.descriptors.erase id
      clients := s.clients.erase fd }

/-- `readBuffers.erase(descriptor)` -/
def eraseReadBuffer (fd : Int) (s : Server Ptr W) : Server Ptr W :=
  { s with readBuffers := s.readBuffers.erase fd }

/-- `workerMap.erase(buffer_event)` -/
def leaveWorker [DecidableEq Ptr] (be : Ptr) (s : Server Ptr W) : Server Ptr W :=
  { s with workerMap := s.workerMap.erase be }

/-! ## The whole of `accept` and of `remove` -/

/-- `Worker::accept` without another worker in between. -/
def accept [DecidableEq Ptr] (w : W) (fd pick : Int) (be : Ptr) (s : Server Ptr W) :
    Option (Except Exception (Server Ptr W)) :=
  (s.registerClient fd pick).map fun (id, s) =>
    (s.enterBufferEvent fd be).map fun s => (s.enterWorker be w).addClient id

/-- `Worker::remove` without another worker in between. -/
def remove [DecidableEq Ptr] (be : Ptr) (s : Server Ptr W) : Except Exception (Server Ptr W) :=
  match s.leaveBufferEvent be with
  | .error e => .error e
  | .ok (fd, s) => (s.unregisterClient fd).map fun s => (s.eraseReadBuffer fd).leaveWorker be

/-! ## What the maps say at any time -/

/-- The ids are handed out consistently: `clients` and `descriptors` are inverse, and the ids up
    to `lastClient` are those that are free and those that have a descriptor. -/
structure IdsConsistent (s : Server Ptr W) : Prop where
  inverse : Inverse s.clients s.descriptors
  disjoint : ∀ id ∈ s.freePool, s.descriptors id = none
  exact : ∀ id, id ∈ s.freePool ∨ (s.descriptors id).isSome ↔ 0 ≤ id ∧ id ≤ s.lastClient
  lastClient : -1 ≤ s.lastClient

/-- The other maps do not matter to the ids. -/
theorem IdsConsistent.congr {s t : Server Ptr W} (hs : s.IdsConsistent)
    (hclients : t.clients = s.clients) (hdescriptors : t.descriptors = s.descriptors)
    (hpool : t.freePool = s.freePool) (hlast : t.lastClient = s.lastClient) :
    t.IdsConsistent := by
  refine ⟨?_, ?_, ?_, ?_⟩
  · rw [hclients, hdescriptors]
    exact hs.inverse
  · rw [hpool, hdescriptors]
    exact hs.disjoint
  · rw [hpool, hdescriptors, hlast]
    exact hs.exact
  · rw [hlast]
    exact hs.lastClient

/-- A server that has just been constructed. -/
theorem idsConsistent_init : IdsConsistent ({} : Server Ptr W) := by
  refine ⟨?_, ?_, ?_, Int.le_refl _⟩
  · intro fd id
    exact iff_of_false nofun nofun
  · intro id hid
    exact absurd hid (Finset.notMem_empty id)
  · intro id
    refine iff_of_false ?_ ?_
    · rintro (hid | hid)
      · exact absurd hid (Finset.notMem_empty id)
      · exact Bool.noConfusion hid
    · rintro ⟨h0, h1⟩
      have : id ≤ -1 := h1
      omega

/-- What the first section of `accept` does: the id is one that nobody has. -/
theorem registerClient_cases {s s' : Server Ptr W} {fd : Int} {pick id : Int}
    (hids : IdsConsistent s) (h : s.registerClient fd pick = some (id, s')) :
    s.descriptors id = none ∧
      ((s.freePool = ∅ ∧ id = s.lastClient + 1 ∧
          s' = { s with
            lastClient := id
            descriptors := s.descriptors.set id fd
            clients := s.clients.set fd id }) ∨
        (id ∈ s.freePool ∧
          s' = { s with
            freePool := s.freePool.erase id
            descriptors := s.descriptors.set id fd
            clients := s.clients.set fd id })) := by
  unfold registerClient chooseClient at h
  by_cases hempty : s.freePool = ∅
  · rw [if_pos hempty] at h
    simp only [Option.map_some, Option.some_inj, Prod.mk.injEq] at h
    obtain ⟨rfl, rfl⟩ := h
    have hnone : s.descriptors (s.lastClient + 1) = none := by
      by_contra hsome
      have hle := (hids.exact (s.lastClient + 1)).mp
        (Or.inr (Option.isSome_iff_ne_none.mpr hsome))
      omega
    refine ⟨hnone, Or.inl ⟨hempty, rfl, ?_⟩⟩
    rw [Map.emplace_of_none hnone]
  · rw [if_neg hempty] at h
    by_cases hpick : pick ∈ s.freePool
    · rw [if_pos hpick] at h
      simp only [Option.map_some, Option.some_inj, Prod.mk.injEq] at h
      obtain ⟨rfl, rfl⟩ := h
      have hnone := hids.disjoint pick hpick
      refine ⟨hnone, Or.inr ⟨hpick, ?_⟩⟩
      rw [Map.emplace_of_none hnone]
    · rw [if_neg hpick] at h
      cases h

/-- Registering keeps the ids consistent. -/
theorem registerClient_ids {s s' : Server Ptr W} {fd : Int} {pick id : Int}
    (hids : IdsConsistent s) (hfd : s.clients fd = none)
    (h : s.registerClient fd pick = some (id, s')) : IdsConsistent s' := by
  have hlast := hids.lastClient
  obtain ⟨hnone, ⟨hempty, rfl, rfl⟩ | ⟨hmem, rfl⟩⟩ := registerClient_cases hids h
  · refine ⟨hids.inverse.set hfd hnone, ?_, ?_, ?_⟩
    · intro x hx
      have hx' : x ∈ s.freePool := hx
      rw [hempty] at hx'
      exact absurd hx' (Finset.notMem_empty x)
    · intro x
      have hx := hids.exact x
      show x ∈ s.freePool ∨ (s.descriptors.set (s.lastClient + 1) fd x).isSome ↔
        0 ≤ x ∧ x ≤ s.lastClient + 1
      by_cases hxid : x = s.lastClient + 1
      · subst hxid
        rw [Map.set_self]
        exact iff_of_true (Or.inr rfl) ⟨by omega, Int.le_refl _⟩
      · rw [Map.set_of_ne _ hxid, hx]
        omega
    · show -1 ≤ s.lastClient + 1
      omega
  · refine ⟨hids.inverse.set hfd hnone, ?_, ?_, hlast⟩
    · intro x hx
      obtain ⟨hne, hx'⟩ := Finset.mem_erase.mp hx
      show s.descriptors.set id fd x = none
      rw [Map.set_of_ne _ hne]
      exact hids.disjoint x hx'
    · intro x
      have hx := hids.exact x
      show x ∈ s.freePool.erase id ∨ (s.descriptors.set id fd x).isSome ↔ _
      by_cases hxid : x = id
      · subst hxid
        rw [Map.set_self]
        exact iff_of_true (Or.inr rfl) (hx.mp (Or.inl hmem))
      · rw [Map.set_of_ne _ hxid, Finset.mem_erase, ← hx]
        constructor
        · rintro (⟨-, hfree⟩ | hsome)
          · exact Or.inl hfree
          · exact Or.inr hsome
        · rintro (hfree | hsome)
          · exact Or.inl ⟨hxid, hfree⟩
          · exact Or.inr hsome

/-- What the section of `remove` under `clientsMutex` does. -/
theorem unregisterClient_cases {s s' : Server Ptr W} {fd : Int}
    (h : s.unregisterClient fd = .ok s') :
    ∃ id, s.clients fd = some id ∧
      s' = { s with
        allClients := s.allClients.erase id
        freePool := insert id s.freePool
        descriptors := s.descriptors.erase id
        clients := s.clients.erase fd } := by
  unfold unregisterClient at h
  cases hfd : s.clients fd with
  | none =>
    rw [hfd] at h
    exact nomatch h
  | some id =>
    rw [hfd] at h
    exact ⟨id, rfl, (Except.ok.inj h).symm⟩

/-- Unregistering keeps the ids consistent: the id is free now. -/
theorem unregisterClient_ids {s s' : Server Ptr W} {fd : Int}
    (hids : IdsConsistent s) (h : s.unregisterClient fd = .ok s') : IdsConsistent s' := by
  obtain ⟨id, hfd, rfl⟩ := unregisterClient_cases h
  have hid : s.descriptors id = some fd := (hids.inverse fd id).mp hfd
  refine ⟨hids.inverse.erase hfd, ?_, ?_, hids.lastClient⟩
  · intro x hx
    show s.descriptors.erase id x = none
    by_cases hxid : x = id
    · rw [hxid, Map.erase_self]
    · rw [Map.erase_of_ne _ hxid]
      exact hids.disjoint x ((Finset.mem_insert.mp hx).resolve_left hxid)
  · intro x
    have hx := hids.exact x
    show x ∈ insert id s.freePool ∨ (s.descriptors.erase id x).isSome ↔ _
    by_cases hxid : x = id
    · subst hxid
      refine iff_of_true (Or.inl (Finset.mem_insert_self x _)) (hx.mp (Or.inr ?_))
      rw [hid]
      rfl
    · rw [Map.erase_of_ne _ hxid, Finset.mem_insert, ← hx, or_iff_right hxid]

/-- What an accept of a socket that has no bufferevent does, with a bufferevent that is not in the
    maps. -/
theorem accept_cases [DecidableEq Ptr] {s s' : Server Ptr W} {w : W} {fd pick : Int} {be : Ptr}
    (hids : IdsConsistent s) (hfd : s.bufferEvents fd = none)
    (hbe : s.bufferEventDescriptors be = none) (hw : s.workerMap be = none)
    (h : s.accept w fd pick be = some (.ok s')) :
    ∃ id s₁, s.registerClient fd pick = some (id, s₁) ∧
      s' = { s₁ with
        bufferEvents := s.bufferEvents.set fd be
        bufferEventDescriptors := s.bufferEventDescriptors.set be fd
        workerMap := s.workerMap.set be w
        allClients := insert id s₁.allClients } := by
  obtain ⟨⟨id, s₁⟩, hreg, heq⟩ := Option.map_eq_some_iff.mp h
  have hmaps : s₁.bufferEvents = s.bufferEvents ∧
      s₁.bufferEventDescriptors = s.bufferEventDescriptors ∧ s₁.workerMap = s.workerMap := by
    obtain ⟨-, ⟨-, -, rfl⟩ | ⟨-, rfl⟩⟩ := registerClient_cases hids hreg
    · exact ⟨rfl, rfl, rfl⟩
    · exact ⟨rfl, rfl, rfl⟩
  obtain ⟨hevents, hdescriptors, hworkers⟩ := hmaps
  refine ⟨id, s₁, hreg, ?_⟩
  have hnone : (s₁.bufferEvents fd).isSome = false := by
    rw [hevents, hfd]
    rfl
  dsimp only at heq
  rw [enterBufferEvent, if_neg (by rw [hnone]; exact Bool.noConfusion)] at heq
  have heq' := Except.ok.inj heq
  rw [← heq']
  simp only [enterWorker, addClient, hevents, hdescriptors, hworkers,
    Map.emplace_of_none hfd, Map.emplace_of_none hbe, Map.emplace_of_none hw]

/-- What a removal does. -/
theorem remove_cases [DecidableEq Ptr] {s s' : Server Ptr W} {be : Ptr}
    (h : s.remove be = .ok s') :
    ∃ fd id, s.bufferEventDescriptors be = some fd ∧ s.clients fd = some id ∧
      s' = { s with
        bufferEventDescriptors := s.bufferEventDescriptors.erase be
        bufferEvents := s.bufferEvents.erase fd
        allClients := s.allClients.erase id
        freePool := insert id s.freePool
        descriptors := s.descriptors.erase id
        clients := s.clients.erase fd
        readBuffers := s.readBuffers.erase fd
        workerMap := s.workerMap.erase be } := by
  unfold remove leaveBufferEvent at h
  cases hbe : s.bufferEventDescriptors be with
  | none =>
    rw [hbe] at h
    exact nomatch h
  | some fd =>
    rw [hbe] at h
    dsimp only at h
    cases hunregister : unregisterClient fd { s with
        bufferEventDescriptors := s.bufferEventDescriptors.erase be
        bufferEvents := s.bufferEvents.erase fd } with
    | error e =>
      rw [hunregister] at h
      exact nomatch h
    | ok s₁ =>
      rw [hunregister] at h
      obtain ⟨id, hid, rfl⟩ := unregisterClient_cases hunregister
      exact ⟨fd, id, rfl, hid, (Except.ok.inj h).symm⟩

theorem remove_ids [DecidableEq Ptr] {s s' : Server Ptr W} {be : Ptr} (hids : IdsConsistent s)
    (h : s.remove be = .ok s') : IdsConsistent s' := by
  obtain ⟨fd, id, -, hfd, rfl⟩ := remove_cases h
  have hunregister : s.unregisterClient fd = .ok { s with
      allClients := s.allClients.erase id
      freePool := insert id s.freePool
      descriptors := s.descriptors.erase id
      clients := s.clients.erase fd } := by
    unfold unregisterClient
    rw [hfd]
  have := unregisterClient_ids hids hunregister
  exact ⟨this.inverse, this.disjoint, this.exact, this.lastClient⟩

/-! ## Between accepts and removals -/

/-- The maps belong together, as they do when no accept and no removal is under way. -/
structure Whole (s : Server Ptr W) : Prop where
  ids : s.IdsConsistent
  events : Inverse s.bufferEvents s.bufferEventDescriptors
  sockets : ∀ fd, s.clients fd = none ↔ s.bufferEvents fd = none
  workers : ∀ be, s.workerMap be = none ↔ s.bufferEventDescriptors be = none

theorem whole_init : Whole ({} : Server Ptr W) := by
  refine ⟨idsConsistent_init, ?_, fun _ => iff_of_true rfl rfl, fun _ => iff_of_true rfl rfl⟩
  intro fd be
  exact iff_of_false nofun nofun

/-- An accept throws nothing, and keeps the maps together. -/
theorem accept_whole [DecidableEq Ptr] {s s' : Server Ptr W} {w : W} {fd pick : Int} {be : Ptr}
    (hs : Whole s) (hfd : s.clients fd = none) (hbe : s.bufferEventDescriptors be = none)
    (h : s.accept w fd pick be = some (.ok s')) :
    Whole s' ∧ ∃ id s₁, s.registerClient fd pick = some (id, s₁) ∧
      s'.clients = s.clients.set fd id ∧ s'.descriptors = s.descriptors.set id fd ∧
      s'.bufferEventDescriptors = s.bufferEventDescriptors.set be fd ∧
      s'.workerMap = s.workerMap.set be w := by
  have hevent : s.bufferEvents fd = none := (hs.sockets fd).mp hfd
  have hworker : s.workerMap be = none := (hs.workers be).mpr hbe
  obtain ⟨id, s₁, hreg, rfl⟩ := accept_cases hs.ids hevent hbe hworker h
  have hids := registerClient_ids hs.ids hfd hreg
  have hmaps : s₁.clients = s.clients.set fd id ∧ s₁.descriptors = s.descriptors.set id fd := by
    obtain ⟨-, ⟨-, -, rfl⟩ | ⟨-, rfl⟩⟩ := registerClient_cases hs.ids hreg
    · exact ⟨rfl, rfl⟩
    · exact ⟨rfl, rfl⟩
  obtain ⟨hclients, hdescriptors⟩ := hmaps
  refine ⟨⟨hids.congr rfl rfl rfl rfl,
    hs.events.set hevent hbe, fun x => ?_, fun b => ?_⟩, id, s₁, hreg, hclients,
    hdescriptors, rfl, rfl⟩
  · show s₁.clients x = none ↔ s.bufferEvents.set fd be x = none
    rw [hclients]
    by_cases hx : x = fd
    · rw [hx, Map.set_self, Map.set_self]
      exact iff_of_false nofun nofun
    · rw [Map.set_of_ne _ hx, Map.set_of_ne _ hx]
      exact hs.sockets x
  · show s.workerMap.set be w b = none ↔ s.bufferEventDescriptors.set be fd b = none
    by_cases hb : b = be
    · rw [hb, Map.set_self, Map.set_self]
      exact iff_of_false nofun nofun
    · rw [Map.set_of_ne _ hb, Map.set_of_ne _ hb]
      exact hs.workers b

/-- A removal keeps the maps together. -/
theorem remove_whole [DecidableEq Ptr] {s s' : Server Ptr W} {be : Ptr} (hs : Whole s)
    (h : s.remove be = .ok s') : Whole s' := by
  have hids := remove_ids hs.ids h
  obtain ⟨fd, id, hbe, hfd, rfl⟩ := remove_cases h
  have hevent : s.bufferEvents fd = some be := (hs.events fd be).mpr hbe
  refine ⟨hids, hs.events.erase hevent, fun x => ?_, fun b => ?_⟩
  · show s.clients.erase fd x = none ↔ s.bufferEvents.erase fd x = none
    by_cases hx : x = fd
    · rw [hx, Map.erase_self, Map.erase_self]
      exact iff_of_true rfl rfl
    · rw [Map.erase_of_ne _ hx, Map.erase_of_ne _ hx]
      exact hs.sockets x
  · show s.workerMap.erase be b = none ↔ s.bufferEventDescriptors.erase be b = none
    by_cases hb : b = be
    · rw [hb, Map.erase_self, Map.erase_self]
      exact iff_of_true rfl rfl
    · rw [Map.erase_of_ne _ hb, Map.erase_of_ne _ hb]
      exact hs.workers b

end Server

end Algiz.Net
