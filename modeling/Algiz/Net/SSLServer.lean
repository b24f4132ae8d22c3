/-
  The TLS worker beside the plain one.

  `SSLServer::Worker` has its own `accept` and `remove`. They do to the maps of `Server` what the
  plain worker's do (`SSLServer.accept_passed`, `SSLServer.remove_eq`), with one difference: only
  the TLS worker asks `ipFilters`. Two servers, one of each kind, that are given the same accepts
  and removals have the same maps in every state exactly when no accepted address is one that a
  live filter rejects (`agree_iff`).
-/
import Algiz.Lib.Transition
import Algiz.Net.Server

namespace Algiz.Net

open Algiz.Lib

variable {Ptr W S : Type*}

/-! ## Filters -/

/-- `std::function<bool(const std::string &ip, int fd)>` -/
abbrev IpFilter := Bytes → Int → Bool

/-- `ipFilters`; `none` is a pointer that has expired. -/
abbrev IpFilters := List (Option IpFilter)

/-- The address text that `inet_ntop` gave, if it and `getpeername` succeeded: an IPv4 address
    mapped into IPv6 is written as IPv4. -/
def clientAddress (text : Option Bytes) : Bytes :=
  let ip := text.getD []
  if ip.take 7 = ascii "::ffff:" ∧ 46 ∈ ip then ip.drop 7 else ip

/-- Some live filter rejects the address. -/
def rejects (ipFilters : IpFilters) (ip : Bytes) (fd : Int) : Bool :=
  ipFilters.any fun
    | none => false
    | some filter => !filter ip fd

/-- `CountryFilter`. -/
structure CountryFilter where
  whitelist : Option (List Bytes) := none
  blacklist : Option (List Bytes) := none

/-- `CountryFilter::filter`. `geo` is `GeoIP::getCountry`, `none` without a database; what the
    filter writes to the socket is left out. -/
def CountryFilter.filter (c : CountryFilter) (geo : Option (Bytes → Except Exception Bytes)) :
    IpFilter := fun ip _ =>
  match geo with
  | none => true
  | some getCountry =>
    let country := match getCountry ip with
      | .ok country => country
      | .error _ => ascii "Unknown"
    (c.whitelist.all (country ∈ ·)) && (c.blacklist.all (country ∉ ·))

/-! ## The TLS worker -/

/-- The maps of `SSLServer`. `S` are the SSL objects. -/
structure SSLServer (Ptr W S : Type*) where
  server : Server Ptr W := {}
  ssls : Map Int S := fun _ => none
  sslMutexes : Finset Int := ∅

namespace SSLServer

/-- The section of `accept` under `clientsMutex`. -/
def registerClient (fd pick : Int) (s : Server Ptr W) : Option (Int × Server Ptr W) :=
  (s.chooseClient pick).map fun (id, s) =>
    (id, { s with
      descriptors := s.descriptors.emplace id fd
      clients := (s.clients.erase fd).emplace fd id })

/-- The section of `accept` under `sslsMutex`. -/
def enterSSL (fd : Int) (ssl : S) (s : SSLServer Ptr W S) : SSLServer Ptr W S :=
  { s with ssls := s.ssls.emplace fd ssl, sslMutexes := insert fd s.sslMutexes }

/-- `SSLServer::Worker::accept` without another worker in between. `ssl` is what `SSL_new`
    returned. -/
def accept [DecidableEq Ptr] (ipFilters : IpFilters) (w : W) (fd pick : Int) (text : Option Bytes)
    (ssl : S) (be : Ptr) (s : SSLServer Ptr W S) :
    Option (Except Exception (SSLServer Ptr W S)) :=
  if rejects ipFilters (clientAddress text) fd then some (.ok s)
  else
    (registerClient fd pick s.server).map fun (id, server) =>
      (server.enterBufferEvent fd be).map fun server =>
        let s := enterSSL fd ssl { s with server := server }
        { s with server := (s.server.enterWorker be w).addClient id }

/-- `SSLServer::Worker::remove` without another worker in between. -/
def remove [DecidableEq Ptr] (be : Ptr) (s : SSLServer Ptr W S) :
    Except Exception (SSLServer Ptr W S) :=
  match s.server.leaveBufferEvent be with
  | .error e => .error e
  | .ok (fd, server) =>
    (server.unregisterClient fd).map fun server =>
      { s with
        server := (server.eraseReadBuffer fd).leaveWorker be
        ssls := s.ssls.erase fd }

/-- Erasing an entry and emplacing it anew is assigning it. -/
theorem registerClient_eq (fd pick : Int) (s : Server Ptr W) :
    registerClient fd pick s = s.registerClient fd pick := by
  have hclients : ∀ (m : Map Int Int) (id : Int), (m.erase fd).emplace fd id = m.set fd id := by
    intro m id
    rw [Map.emplace_of_none (Map.erase_self m fd)]
    unfold Map.set Map.erase
    exact Function.update_idem ..
  unfold registerClient Server.registerClient
  simp only [hclients]

/-- An address that passes: the maps of `Server` are the plain worker's. -/
theorem accept_passed [DecidableEq Ptr] {ipFilters : IpFilters} {w : W} {fd pick : Int}
    {text : Option Bytes} {ssl : S} {be : Ptr} {s : SSLServer Ptr W S}
    (h : rejects ipFilters (clientAddress text) fd = false) :
    (s.accept ipFilters w fd pick text ssl be).map (Except.map SSLServer.server) =
      s.server.accept w fd pick be := by
  unfold accept Server.accept
  rw [if_neg (by rw [h]; exact Bool.noConfusion), registerClient_eq, Option.map_map]
  congr 1
  funext ⟨id, server⟩
  dsimp only [Function.comp]
  cases server.enterBufferEvent fd be with
  | error e => rfl
  | ok server => rfl

theorem accept_rejected [DecidableEq Ptr] {ipFilters : IpFilters} {w : W} {fd pick : Int}
    {text : Option Bytes} {ssl : S} {be : Ptr} {s : SSLServer Ptr W S}
    (h : rejects ipFilters (clientAddress text) fd = true) :
    s.accept ipFilters w fd pick text ssl be = some (.ok s) := by
  rw [accept, if_pos h]

/-- A removal: the maps of `Server` are the plain worker's. -/
theorem remove_eq [DecidableEq Ptr] (be : Ptr) (s : SSLServer Ptr W S) :
    (s.remove be).map SSLServer.server = s.server.remove be := by
  unfold remove Server.remove
  cases s.server.leaveBufferEvent be with
  | error e => rfl
  | ok left =>
    obtain ⟨fd, server⟩ := left
    dsimp only
    cases server.unregisterClient fd with
    | error e => rfl
    | ok server => rfl

end SSLServer

/-! ## Both -/

/-- A plain server and a TLS server. -/
structure Deployments (Ptr W S : Type*) where
  plain : Server Ptr W := {}
  tls : SSLServer Ptr W S := {}

/-- What both are given. -/
inductive ConnectionEvent (Ptr W S : Type*) where
  /-- worker `w` accepts the socket `fd`, whose peer's address is `text` -/
  | accept (w : W) (fd pick : Int) (text : Option Bytes) (ssl : S) (be : Ptr)
  /-- a worker removes the connection -/
  | remove (be : Ptr)

namespace Deployments

variable [DecidableEq Ptr]

/-- What an accept or a removal leaves, if it throws nothing. -/
def finished {α : Type*} : Option (Except Exception α) → Option α
  | some (.ok s) => some s
  | some (.error _) | none => none

/-- One event on the plain server. Sockets that are open are not accepted again, and bufferevents
    are allocated where there is none. -/
def plainStep (s : Server Ptr W) : ConnectionEvent Ptr W S → Option (Server Ptr W)
  | .accept w fd pick _ _ be =>
    if s.clients fd = none ∧ s.bufferEventDescriptors be = none then
      finished (s.accept w fd pick be)
    else none
  | .remove be => finished (some (s.remove be))

/-- One event on the TLS server. -/
def tlsStep (ipFilters : IpFilters) (s : SSLServer Ptr W S) :
    ConnectionEvent Ptr W S → Option (SSLServer Ptr W S)
  | .accept w fd pick text ssl be =>
    if s.server.clients fd = none ∧ s.server.bufferEventDescriptors be = none then
      finished (s.accept ipFilters w fd pick text ssl be)
    else none
  | .remove be => finished (some (s.remove be))

/-- One event on both. -/
def step (ipFilters : IpFilters) (d : Deployments Ptr W S) (e : ConnectionEvent Ptr W S) :
    Option (Deployments Ptr W S) :=
  match plainStep d.plain e, tlsStep ipFilters d.tls e with
  | some plain, some tls => some { plain := plain, tls := tls }
  | _, _ => none

end Deployments

/-- The two servers have the same ids, sockets and clients, and the same keys. -/
structure Agree (d : Deployments Ptr W S) : Prop where
  lastClient : d.plain.lastClient = d.tls.server.lastClient
  freePool : d.plain.freePool = d.tls.server.freePool
  clients : d.plain.clients = d.tls.server.clients
  descriptors : d.plain.descriptors = d.tls.server.descriptors
  allClients : d.plain.allClients = d.tls.server.allClients
  bufferEvents : ∀ fd, d.plain.bufferEvents fd = none ↔ d.tls.server.bufferEvents fd = none
  workerMap : ∀ be, d.plain.workerMap be = none ↔ d.tls.server.workerMap be = none

/-- No live filter rejects the address. -/
def Passes (ipFilters : IpFilters) (_ : Deployments Ptr W S) : ConnectionEvent Ptr W S → Prop
  | .accept _ fd _ text _ _ => rejects ipFilters (clientAddress text) fd = false
  | .remove _ => True

/-- The invariant of runs in which the servers agree. -/
structure Same (d : Deployments Ptr W S) : Prop where
  maps : d.tls.server = d.plain
  whole : d.plain.Whole

theorem Same.agree {d : Deployments Ptr W S} (h : Same d) : Agree d := by
  have := h.maps
  exact ⟨by rw [this], by rw [this], by rw [this], by rw [this], by rw [this],
    fun fd => by rw [this], fun be => by rw [this]⟩

section Runs

variable [DecidableEq Ptr] {ipFilters : IpFilters}

open Deployments

theorem step_cases {d d' : Deployments Ptr W S} {e : ConnectionEvent Ptr W S}
    (hstep : step ipFilters d e = some d') :
    plainStep d.plain e = some d'.plain ∧ tlsStep ipFilters d.tls e = some d'.tls := by
  unfold step at hstep
  split at hstep
  · rename_i plain tls hplain htls
    obtain rfl := Option.some.inj hstep
    exact ⟨hplain, htls⟩
  · exact nomatch hstep

theorem finished_map {α β : Type*} (f : α → β) (o : Option (Except Exception α)) :
    finished (o.map (Except.map f)) = (finished o).map f := by
  rcases o with _ | (_ | _)
  · rfl
  · rfl
  · rfl

theorem finished_eq {α : Type*} {o : Option (Except Exception α)} {s : α}
    (h : finished o = some s) : o = some (.ok s) := by
  unfold finished at h
  split at h
  · rw [Option.some.inj h]
  · exact nomatch h
  · exact nomatch h

/-- The plain worker keeps its maps together. -/
theorem plainStep_whole {s s' : Server Ptr W} {e : ConnectionEvent Ptr W S} (hs : s.Whole)
    (hstep : plainStep s e = some s') : s'.Whole := by
  cases e with
  | accept w fd pick text ssl be =>
    rw [plainStep] at hstep
    split at hstep
    · rename_i hfree
      exact (Server.accept_whole hs hfree.1 hfree.2 (finished_eq hstep)).1
    · exact nomatch hstep
  | remove be => exact Server.remove_whole hs (Option.some.inj (finished_eq hstep))

/-- If the address passes, the TLS worker does to the maps of `Server` what the plain one
    does. -/
theorem tlsStep_passed {s : SSLServer Ptr W S} {e : ConnectionEvent Ptr W S}
    (hpass : Passes ipFilters { plain := s.server, tls := s } e) :
    (tlsStep ipFilters s e).map SSLServer.server = plainStep s.server e := by
  cases e with
  | accept w fd pick text ssl be =>
    rw [tlsStep, plainStep]
    split
    · rw [← finished_map, SSLServer.accept_passed hpass]
    · rfl
  | remove be =>
    rw [tlsStep, plainStep, ← finished_map, Option.map_some, SSLServer.remove_eq]

theorem step_same {d d' : Deployments Ptr W S} {e : ConnectionEvent Ptr W S} (hs : Same d)
    (hpass : Passes ipFilters d e) (hstep : step ipFilters d e = some d') : Same d' := by
  obtain ⟨hplain, htls⟩ := step_cases hstep
  have hsame : (tlsStep ipFilters d.tls e).map SSLServer.server = plainStep d.tls.server e := by
    refine tlsStep_passed ?_
    cases e with
    | accept w fd pick text ssl be => exact hpass
    | remove be => trivial
  rw [htls, hs.maps, hplain] at hsame
  exact ⟨Option.some.inj hsame, plainStep_whole hs.whole hplain⟩

/-- An address that is rejected: the plain worker has a client that the TLS worker has not. -/
theorem step_rejected {d d' : Deployments Ptr W S} {w : W} {fd pick : Int} {text : Option Bytes}
    {ssl : S} {be : Ptr} (hs : Same d) (hreject : rejects ipFilters (clientAddress text) fd = true)
    (hstep : step ipFilters d (.accept w fd pick text ssl be) = some d') :
    d'.plain.clients fd ≠ none ∧ d'.tls.server.clients fd = none := by
  obtain ⟨hplain, htls⟩ := step_cases hstep
  rw [plainStep] at hplain
  rw [tlsStep, SSLServer.accept_rejected hreject] at htls
  split at hplain
  · rename_i hfree
    rw [hs.maps, if_pos hfree] at htls
    have hunchanged : d.tls = d'.tls := Option.some.inj htls
    obtain ⟨-, id, -, -, hclients, -⟩ :=
      Server.accept_whole hs.whole hfree.1 hfree.2 (finished_eq hplain)
    rw [hclients, Map.set_self, ← hunchanged, hs.maps]
    exact ⟨nofun, hfree.1⟩
  · exact nomatch hplain

/-- The servers still agree after an event exactly when it is no accept from an address that is
    rejected. -/
theorem step_agree_iff {d d' : Deployments Ptr W S} {e : ConnectionEvent Ptr W S} (hs : Same d)
    (hstep : step ipFilters d e = some d') : Agree d' ↔ Passes ipFilters d e := by
  constructor
  · intro hagree
    cases e with
    | accept w fd pick text ssl be =>
      by_contra hnot
      have hreject := Bool.eq_true_of_not_eq_false hnot
      obtain ⟨hplain, htls⟩ := step_rejected hs hreject hstep
      rw [hagree.clients] at hplain
      exact hplain htls
    | remove be => trivial
  · intro hpass
    exact (step_same hs hpass hstep).agree

/-- In every run: the two servers agree in every state if and only if no live filter rejects the
    address of an accepted connection. -/
theorem agree_iff (ipFilters : IpFilters) (es : List (ConnectionEvent Ptr W S)) :
    AllStates (step ipFilters) Agree {} es ↔ AllSteps (step ipFilters) (Passes ipFilters) {} es :=
  allStates_iff (fun _ _ _ hs _ hstep hp => step_same hs ((step_agree_iff hs hstep).mp hp) hstep)
    (fun _ _ _ hs _ hstep => step_agree_iff hs hstep) es ⟨rfl, Server.whole_init⟩
    (Same.agree ⟨rfl, Server.whole_init⟩)

end Runs

/-- The filter of a server that lets nobody in from one country, with a database that knows one
    address. -/
def noXX : IpFilter :=
  CountryFilter.filter { blacklist := some [ascii "XX"] }
    (some fun ip => if ip = ascii "192.0.2.1" then .ok (ascii "XX") else .error .other)

/-- A client from that country connects: the TLS server closes the socket, the plain one gives
    the client an id and a client object. -/
theorem not_agree_rejected :
    let es : List (ConnectionEvent Nat Unit Unit) :=
      [.accept () 5 0 (some (ascii "::ffff:192.0.2.1")) () 100]
    ¬ AllStates (Deployments.step [some noXX]) Agree {} es ∧
      ∃ d, exec (Deployments.step [some noXX]) {} es = some d ∧
        d.plain.clients 5 = some 0 ∧ 0 ∈ d.plain.allClients ∧
        d.tls.server.clients 5 = none ∧ d.tls.server.lastClient = -1 := by
  have hrejects : rejects [some noXX] (clientAddress (some (ascii "::ffff:192.0.2.1"))) 5 = true :=
    by decide
  refine ⟨fun hall => ?_, _, rfl, rfl, Finset.mem_insert_self .., ?_, ?_⟩
  · rw [agree_iff] at hall
    exact Bool.noConfusion (hrejects.symm.trans (hall _ rfl).1)
  · rfl
  · rfl

end Algiz.Net
