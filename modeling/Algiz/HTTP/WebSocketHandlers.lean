/-
  The tables of WebSocket handlers, over whole runs.

  `webSocketMessageHandlers` and `webSocketCloseHandlers` are keyed by client id, and ids come
  back from `freePool`. Nothing takes a client's handlers out of the tables when its connection
  is removed; only expired handlers are swept out, by `cleanWebSocketHandlers`. So a connection
  finds what an earlier one with its id left there. The handlers of each client are its own, in
  every state of a run, exactly when every connection is given an id that has no handlers
  (`handlers_own_iff`).

  Each entry remembers the connection that registered it (`registeredBy`), and each id the
  connection that has it (`owner`), as serial numbers of the history; an id has an owner as long
  as it has a descriptor (`Past.connected`).
-/
import Algiz.Lib.Transition
import Algiz.Net.Server
import Algiz.Plugins

namespace Algiz.HTTP

open Algiz.Lib Algiz.Net Algiz.Plugins

/-- A handler in a table, and the connection it was registered for. -/
structure Entry (α : Type*) where
  handler : α
  registeredBy : Nat
  deriving DecidableEq

/-- `std::map<int, std::list<WeakPtr>>` -/
abbrev HandlerTable (α : Type*) := Map Int (List (Entry α))

namespace HandlerTable

variable {α : Type*}

/-- The handlers of a client; none if the table has no entry for it. -/
def of (table : HandlerTable α) (id : Int) : List (Entry α) := (table id).getD []

/-- `table[client.id].push_back(handler)` -/
def register (table : HandlerTable α) (id : Int) (entry : Entry α) : HandlerTable α :=
  table.set id (table.of id ++ [entry])

/-- Handlers registered one after another. -/
def registerAll (table : HandlerTable α) (id : Int) (n : Nat) (handlers : List α) :
    HandlerTable α :=
  handlers.foldl (fun table handler => table.register id ⟨handler, n⟩) table

/-- `std::erase_if`: the expired handlers go, and the lists that are then empty. -/
def clean (table : HandlerTable α) (expired : α → Bool) : HandlerTable α := fun id =>
  match table id with
  | none => none
  | some handlers =>
    let left := handlers.filter fun entry => !expired entry.handler
    if left.isEmpty then none else some left

theorem of_registerAll_self (table : HandlerTable α) (id : Int) (n : Nat) (handlers : List α) :
    (table.registerAll id n handlers).of id = table.of id ++ handlers.map (⟨·, n⟩) := by
  induction handlers generalizing table with
  | nil => exact (List.append_nil _).symm
  | cons handler handlers ih =>
    have hone : (table.register id ⟨handler, n⟩).of id = table.of id ++ [⟨handler, n⟩] := by
      unfold register of
      rw [Map.set_self]
      rfl
    show ((table.register id ⟨handler, n⟩).registerAll id n handlers).of id = _
    rw [ih, hone, List.append_assoc]
    rfl

theorem of_registerAll_of_ne (table : HandlerTable α) {id id' : Int} (h : id' ≠ id) (n : Nat)
    (handlers : List α) : (table.registerAll id n handlers).of id' = table.of id' := by
  induction handlers generalizing table with
  | nil => rfl
  | cons handler handlers ih =>
    have hone : (table.register id ⟨handler, n⟩).of id' = table.of id' := by
      unfold register of
      rw [Map.set_of_ne _ h]
    show ((table.register id ⟨handler, n⟩).registerAll id n handlers).of id' = _
    rw [ih, hone]

theorem mem_of_clean (table : HandlerTable α) (expired : α → Bool) {id : Int} {entry : Entry α}
    (h : entry ∈ (table.clean expired).of id) : entry ∈ table.of id := by
  unfold of clean at h
  unfold of
  cases htable : table id with
  | none =>
    rw [htable] at h
    exact h
  | some handlers =>
    rw [htable] at h
    dsimp only at h
    split at h
    · exact absurd h List.not_mem_nil
    · exact (List.mem_filter.mp h).1

end HandlerTable

section Tables

variable {α : Type*} {table : HandlerTable α} {P : Int → Entry α → Prop}

/-- What holds of the handlers there and of the new ones holds of all. -/
theorem forall_registerAll (h : ∀ x, ∀ entry ∈ table.of x, P x entry) {id : Int} {n : Nat}
    (hnew : ∀ handler, P id ⟨handler, n⟩) (handlers : List α) (x : Int) :
    ∀ entry ∈ (table.registerAll id n handlers).of x, P x entry := by
  intro entry hentry
  by_cases hx : x = id
  · subst hx
    rw [HandlerTable.of_registerAll_self] at hentry
    rcases List.mem_append.mp hentry with hentry | hentry
    · exact h x entry hentry
    · obtain ⟨handler, -, rfl⟩ := List.mem_map.mp hentry
      exact hnew handler
  · rw [HandlerTable.of_registerAll_of_ne _ hx] at hentry
    exact h x entry hentry

theorem forall_clean (h : ∀ x, ∀ entry ∈ table.of x, P x entry) (expired : α → Bool) (x : Int) :
    ∀ entry ∈ (table.clean expired).of x, P x entry := by
  intro entry hentry
  exact h x entry (HandlerTable.mem_of_clean table expired hentry)

end Tables

/-- The server with its two tables. `M` and `K` are the message handlers and the close
    handlers. -/
structure Hub (Ptr W M K : Type*) where
  server : Net.Server Ptr W := {}
  webSocketMessageHandlers : HandlerTable M := fun _ => none
  webSocketCloseHandlers : HandlerTable K := fun _ => none
  /-- the handlers that nobody but the tables points to any more -/
  expiredMessage : M → Bool := fun _ => false
  expiredClose : K → Bool := fun _ => false
  /-- how many connections there have been -/
  serial : Nat := 0
  /-- which connection has the id -/
  owner : Map Int Nat := fun _ => none

/-- What happens to the tables. -/
inductive HubEvent (Ptr W M K : Type*) where
  /-- a worker accepts a connection -/
  | connect (w : W) (fd pick : Int) (be : Ptr)
  /-- the client asks for a WebSocket; the plugins register these handlers for it -/
  | upgrade (id : Int) (message : List M) (close : List K)
  /-- the client sends a WebSocket message; the handlers called register these -/
  | message (id : Int) (message : List M) (close : List K)
  /-- the connection is removed, for whatever reason -/
  | disconnect (be : Ptr)
  /-- the owners of some handlers let go of them -/
  | expire (message : M → Bool) (close : K → Bool)
  /-- a plugin is unloaded and calls `cleanWebSocketHandlers` -/
  | clean

namespace Hub

variable {Ptr W M K : Type*}

/-- `registerWebSocketMessageHandler` and `registerWebSocketCloseHandler`, for a client that is
    connected. -/
def register (s : Hub Ptr W M K) (id : Int) (message : List M) (close : List K) :
    Option (Hub Ptr W M K) :=
  match s.owner id with
  | none => none
  | some n => some { s with
      webSocketMessageHandlers := s.webSocketMessageHandlers.registerAll id n message
      webSocketCloseHandlers := s.webSocketCloseHandlers.registerAll id n close }

/-- `cleanWebSocketHandlers` -/
def cleanWebSocketHandlers (s : Hub Ptr W M K) : Hub Ptr W M K :=
  { s with
    webSocketMessageHandlers := s.webSocketMessageHandlers.clean s.expiredMessage
    webSocketCloseHandlers := s.webSocketCloseHandlers.clean s.expiredClose }

variable [DecidableEq Ptr]

/-- One event. `disconnect` calls the close handlers under `remove`; the tables stay as they
    are. -/
def step (s : Hub Ptr W M K) : HubEvent Ptr W M K → Option (Hub Ptr W M K)
  | .connect w fd pick be =>
    if s.server.clients fd = none ∧ s.server.bufferEventDescriptors be = none then
      match s.server.accept w fd pick be with
      | some (.ok server) =>
        (server.clients fd).map fun id => { s with
          server := server
          serial := s.serial + 1
          owner := s.owner.set id s.serial }
      | some (.error _) | none => none
    else none
  | .upgrade id message close => s.register id message close
  | .message id message close => s.register id message close
  | .disconnect be =>
    match s.server.bufferEventDescriptors be with
    | none => none
    | some fd =>
      match s.server.clients fd, s.server.remove be with
      | some id, .ok server => some { s with server := server, owner := s.owner.erase id }
      | _, _ => none
  | .expire message close =>
    some { s with
      expiredMessage := fun m => s.expiredMessage m || message m
      expiredClose := fun k => s.expiredClose k || close k }
  | .clean => some s.cleanWebSocketHandlers

/-- `HTTP::Server::handleWebSocketMessage`: the message is offered to the client's handlers in
    turn. `call` is what a handler makes of it. -/
def handleWebSocketMessage {S : Type*} (s : Hub Ptr W M K) (id : Int)
    (call : Entry M → S → Bool → S × CancelableResult) (state : S) : Asked (Entry M) S :=
  beforeMulti (fun entry => s.expiredMessage entry.handler) call
    (s.webSocketMessageHandlers.of id) state true

/-- The handlers that `HTTP::Server::closeWebSocket` calls. -/
def closeWebSocket (s : Hub Ptr W M K) (id : Int) : List (Entry K) :=
  (s.webSocketCloseHandlers.of id).filter fun entry => !s.expiredClose entry.handler

end Hub

/-! ## The property, the condition and the invariant -/

/-- The handler was registered during the connection that now has the id `id`, if any has. -/
def Own {α : Type*} (owner : Map Int Nat) (id : Int) (entry : Entry α) : Prop :=
  ∀ n, owner id = some n → entry.registeredBy = n

variable {Ptr W M K : Type*}

/-- The handlers of each connected client were registered during its connection. -/
structure HandlersOwn (s : Hub Ptr W M K) : Prop where
  message : ∀ id, ∀ entry ∈ s.webSocketMessageHandlers.of id, Own s.owner id entry
  close : ∀ id, ∀ entry ∈ s.webSocketCloseHandlers.of id, Own s.owner id entry

/-- A connection is given an id that has no handlers. -/
def GivesBareId (s : Hub Ptr W M K) : HubEvent Ptr W M K → Prop
  | .connect _ _ pick _ => ∀ id server, s.server.chooseClient pick = some (id, server) →
      s.webSocketMessageHandlers.of id = [] ∧ s.webSocketCloseHandlers.of id = []
  | .upgrade .. | .message .. | .disconnect _ | .expire .. | .clean => True

/-- The invariant: whoever registered a handler was an earlier connection than the next. -/
structure Past (s : Hub Ptr W M K) : Prop where
  maps : s.server.Whole
  message : ∀ id, ∀ entry ∈ s.webSocketMessageHandlers.of id, entry.registeredBy < s.serial
  close : ∀ id, ∀ entry ∈ s.webSocketCloseHandlers.of id, entry.registeredBy < s.serial
  owner : ∀ id n, s.owner id = some n → n < s.serial
  /-- an id has an owner as long as it has a descriptor -/
  connected : ∀ id, s.owner id = none ↔ s.server.descriptors id = none

theorem past_init : Past ({} : Hub Ptr W M K) :=
  ⟨Server.whole_init, nofun, nofun, nofun, fun _ => iff_of_true rfl rfl⟩

theorem handlersOwn_init : HandlersOwn ({} : Hub Ptr W M K) := ⟨nofun, nofun⟩

/-! ## The events -/

section Connect

variable {α : Type*} {table : HandlerTable α} {owner : Map Int Nat} {id : Int} {n : Nat}

/-- What a new connection finds at its id is its own only if there is nothing. -/
theorem own_connect_iff (hown : ∀ x, ∀ entry ∈ table.of x, Own owner x entry)
    (hpast : ∀ x, ∀ entry ∈ table.of x, entry.registeredBy < n) :
    (∀ x, ∀ entry ∈ table.of x, Own (owner.set id n) x entry) ↔ table.of id = [] := by
  constructor
  · intro hall
    rw [List.eq_nil_iff_forall_not_mem]
    intro entry hentry
    have hlt := hpast id entry hentry
    rw [hall id entry hentry n (Map.set_self ..)] at hlt
    exact Nat.lt_irrefl n hlt
  · intro hnil x entry hentry m hm
    by_cases hx : x = id
    · subst hx
      rw [hnil] at hentry
      exact absurd hentry List.not_mem_nil
    · rw [Map.set_of_ne _ hx] at hm
      exact hown x entry hentry m hm

/-- A connection that has gone owns nothing. -/
theorem own_disconnect (hown : ∀ x, ∀ entry ∈ table.of x, Own owner x entry) (x : Int) :
    ∀ entry ∈ table.of x, Own (owner.erase id) x entry := by
  intro entry hentry m hm
  by_cases hx : x = id
  · rw [hx, Map.erase_self] at hm
    exact nomatch hm
  · rw [Map.erase_of_ne _ hx] at hm
    exact hown x entry hentry m hm

end Connect

section Steps

variable {s t : Hub Ptr W M K} (hs : Past s)
include hs

theorem register_keeps (hp : HandlersOwn s) {id : Int} {message : List M} {close : List K}
    (hstep : s.register id message close = some t) : Past t ∧ HandlersOwn t := by
  unfold Hub.register at hstep
  cases howner : s.owner id with
  | none =>
    rw [howner] at hstep
    exact nomatch hstep
  | some n =>
    rw [howner] at hstep
    obtain rfl := Option.some.inj hstep
    have hn := hs.owner id n howner
    have hnew : ∀ m, s.owner id = some m → n = m := by
      intro m hm
      rw [howner] at hm
      exact Option.some.inj hm
    refine ⟨⟨hs.maps, ?_, ?_, hs.owner, hs.connected⟩, ?_, ?_⟩
    · exact forall_registerAll hs.message (fun _ => hn) message
    · exact forall_registerAll hs.close (fun _ => hn) close
    · exact forall_registerAll hp.message (fun _ => hnew) message
    · exact forall_registerAll hp.close (fun _ => hnew) close

theorem clean_keeps (hp : HandlersOwn s) :
    Past s.cleanWebSocketHandlers ∧ HandlersOwn s.cleanWebSocketHandlers :=
  ⟨⟨hs.maps, forall_clean hs.message _, forall_clean hs.close _, hs.owner, hs.connected⟩,
    forall_clean hp.message _, forall_clean hp.close _⟩

variable [DecidableEq Ptr]

/-- What a connection does: the id chosen gets a new owner. -/
theorem connect_cases {w : W} {fd pick : Int} {be : Ptr}
    (hstep : s.step (.connect w fd pick be) = some t) :
    ∃ id chosen, s.server.chooseClient pick = some (id, chosen) ∧ Past t ∧
      t.owner = s.owner.set id s.serial ∧
      t.webSocketMessageHandlers = s.webSocketMessageHandlers ∧
      t.webSocketCloseHandlers = s.webSocketCloseHandlers := by
  rw [Hub.step] at hstep
  by_cases hfree : s.server.clients fd = none ∧ s.server.bufferEventDescriptors be = none
  · rw [if_pos hfree] at hstep
    split at hstep
    · rename_i server haccept
      obtain ⟨hmaps, id, s₁, hreg, hclients, hdescriptors, -, -⟩ :=
        Server.accept_whole hs.maps hfree.1 hfree.2 haccept
      obtain ⟨⟨id', chosen⟩, hchoose, heq⟩ := Option.map_eq_some_iff.mp hreg
      obtain rfl : id' = id := congrArg Prod.fst heq
      rw [hclients, Map.set_self] at hstep
      obtain rfl := Option.some.inj hstep
      refine ⟨id', chosen, hchoose, ⟨hmaps, ?_, ?_, ?_, ?_⟩, rfl, rfl, rfl⟩
      · intro x entry hentry
        exact Nat.lt_succ_of_lt (hs.message x entry hentry)
      · intro x entry hentry
        exact Nat.lt_succ_of_lt (hs.close x entry hentry)
      · intro x n hn
        by_cases hx : x = id'
        · rw [hx] at hn
          have hserial : some s.serial = some n := (Map.set_self ..).symm.trans hn
          rw [← Option.some.inj hserial]
          exact Nat.lt_succ_self s.serial
        · have hold : s.owner x = some n := (Map.set_of_ne _ hx _).symm.trans hn
          exact Nat.lt_succ_of_lt (hs.owner x n hold)
      · intro x
        show s.owner.set id' s.serial x = none ↔ server.descriptors x = none
        rw [hdescriptors]
        by_cases hx : x = id'
        · rw [hx, Map.set_self, Map.set_self]
          exact iff_of_false (Option.some_ne_none _) (Option.some_ne_none _)
        · rw [Map.set_of_ne _ hx, Map.set_of_ne _ hx]
          exact hs.connected x
    · cases hstep
    · cases hstep
  · rw [if_neg hfree] at hstep
    cases hstep

theorem disconnect_keeps (hp : HandlersOwn s) {be : Ptr}
    (hstep : s.step (.disconnect be) = some t) : Past t ∧ HandlersOwn t := by
  rw [Hub.step] at hstep
  split at hstep
  · exact nomatch hstep
  · rename_i fd hbe
    split at hstep
    · rename_i id server hid hremove
      obtain rfl := Option.some.inj hstep
      have hmaps := Server.remove_whole hs.maps hremove
      obtain ⟨fd', id', hbe', hid', rfl⟩ := Server.remove_cases hremove
      obtain rfl : fd = fd' := by
        rw [hbe] at hbe'
        exact Option.some.inj hbe'
      obtain rfl : id = id' := by
        rw [hid] at hid'
        exact Option.some.inj hid'
      refine ⟨⟨hmaps, hs.message, hs.close, ?_, ?_⟩, own_disconnect hp.message,
        own_disconnect hp.close⟩
      · intro x n hn
        by_cases hx : x = id
        · rw [hx] at hn
          have hnone : none = some n := (Map.erase_self ..).symm.trans hn
          exact nomatch hnone
        · exact hs.owner x n ((Map.erase_of_ne _ hx).symm.trans hn)
      · intro x
        show s.owner.erase id x = none ↔ s.server.descriptors.erase id x = none
        by_cases hx : x = id
        · rw [hx, Map.erase_self, Map.erase_self]
          exact iff_of_true rfl rfl
        · rw [Map.erase_of_ne _ hx, Map.erase_of_ne _ hx]
          exact hs.connected x
    · exact nomatch hstep

theorem step_past {e : HubEvent Ptr W M K} (hp : HandlersOwn s) (hstep : s.step e = some t) :
    Past t := by
  cases e with
  | connect w fd pick be =>
    obtain ⟨-, -, -, hpast, -⟩ := connect_cases hs hstep
    exact hpast
  | upgrade id message close => exact (register_keeps hs hp hstep).1
  | message id message close => exact (register_keeps hs hp hstep).1
  | disconnect be => exact (disconnect_keeps hs hp hstep).1
  | expire message close =>
    obtain rfl := Option.some.inj hstep
    exact ⟨hs.maps, hs.message, hs.close, hs.owner, hs.connected⟩
  | clean =>
    obtain rfl := Option.some.inj hstep
    exact (clean_keeps hs hp).1

/-- One event keeps the property exactly when it is no connection that finds handlers. -/
theorem step_own_iff {e : HubEvent Ptr W M K} (hp : HandlersOwn s) (hstep : s.step e = some t) :
    HandlersOwn t ↔ GivesBareId s e := by
  cases e with
  | connect w fd pick be =>
    obtain ⟨id, chosen, hchoose, -, howner, hmessage, hclose⟩ := connect_cases hs hstep
    have hboth : HandlersOwn t ↔
        s.webSocketMessageHandlers.of id = [] ∧ s.webSocketCloseHandlers.of id = [] := by
      rw [← own_connect_iff hp.message hs.message, ← own_connect_iff hp.close hs.close,
        ← howner, ← hmessage, ← hclose]
      exact ⟨fun h => ⟨h.message, h.close⟩, fun h => ⟨h.1, h.2⟩⟩
    rw [hboth]
    constructor
    · intro hbare id' chosen' hchoose'
      rw [hchoose] at hchoose'
      obtain ⟨rfl, -⟩ := Prod.mk.inj (Option.some.inj hchoose')
      exact hbare
    · intro hbare
      exact hbare id chosen hchoose
  | upgrade id message close => exact iff_of_true (register_keeps hs hp hstep).2 trivial
  | message id message close => exact iff_of_true (register_keeps hs hp hstep).2 trivial
  | disconnect be => exact iff_of_true (disconnect_keeps hs hp hstep).2 trivial
  | expire message close =>
    obtain rfl := Option.some.inj hstep
    exact iff_of_true ⟨hp.message, hp.close⟩ trivial
  | clean =>
    obtain rfl := Option.some.inj hstep
    exact iff_of_true (clean_keeps hs hp).2 trivial

end Steps

/-! ## Runs -/

section Runs

variable [DecidableEq Ptr]

/-- In every run: the handlers of each connected client were registered during its connection, in
    every state, if and only if every connection is given an id that has no handlers. -/
theorem handlers_own_iff (es : List (HubEvent Ptr W M K)) :
    AllStates Hub.step HandlersOwn {} es ↔ AllSteps Hub.step GivesBareId {} es :=
  allStates_iff (fun _ _ _ hs hp hstep _ => step_past hs hp hstep)
    (fun _ _ _ hs hp hstep => step_own_iff hs hp hstep) es past_init handlersOwn_init

end Runs

/-- Where the property holds, a client's messages go to handlers of its own connection only, and
    so does its close. -/
theorem HandlersOwn.delivery {s : Hub Ptr W M K} (hp : HandlersOwn s) {id : Int} {n : Nat}
    (hn : s.owner id = some n) {S : Type*} (call : Entry M → S → Bool → S × CancelableResult)
    (state : S) :
    (∀ entry ∈ (s.handleWebSocketMessage id call state).called, entry.registeredBy = n) ∧
      ∀ entry ∈ s.closeWebSocket id, entry.registeredBy = n := by
  constructor
  · intro entry hentry
    exact hp.message id entry (mem_of_called _ call _ state true hentry).1 n hn
  · intro entry hentry
    exact hp.close id entry (List.mem_filter.mp hentry).1 n hn

/-- A client upgrades and goes, and the next client gets its id. -/
def twoClients : List (HubEvent Nat Unit String String) :=
  [.connect () 5 0 100, .upgrade 0 ["echo"] [], .disconnect 100, .connect () 6 0 100]

/-- The second client's messages go to the handler that the first one's upgrade left. -/
theorem handlers_outlive :
    ¬ AllStates Hub.step HandlersOwn ({} : Hub Nat Unit String String) twoClients ∧
      (((exec Hub.step {} twoClients).get rfl).handleWebSocketMessage 0
        (fun _ s _ => (s, .approve)) ()).called.map Entry.registeredBy = [0] := by
  refine ⟨fun hall => ?_, rfl⟩
  have hlast := (((hall.2 _ rfl).2 _ rfl).2 _ rfl).2 _ rfl
  exact absurd (hlast.message 0 ⟨"echo", 0⟩ (by decide) 1 rfl) (by decide)

end Algiz.HTTP
