/-
  `LetsEncrypt`: the challenges that are waiting to be answered.

  A map has the authorization of every path, and a deque has iterators into the map, oldest first.
  The two stay in step, and the path of the latest callback is answered with its authorization, as
  long as every path is one that is looked up at all, a path that is in the map already comes with
  the authorization that it has there, and the map is not rehashed while the deque holds iterators
  (`inStep_iff`).

  A rehash is something that `emplace` may do when it inserts, and by the standard no iterator
  outlives it. Where the iterators of an implementation do, none of its callbacks `rehashes`.

  The certificate that all this is for goes to `SSLServer::addCertificate`; if it is alone, the
  host loses the certificate it had (`finishCertificate_alone`).
-/
import Algiz.Fileserv.Sending
import Algiz.Lib.Fifo
import Algiz.Lib.Transition
import Algiz.Net.Certificates
import Algiz.Plugins

namespace Algiz.Plugins

open Lib HTTP

/-- `MAX_CHALLENGES` -/
def MAX_CHALLENGES : Nat := 128

/-- An iterator into `challenges`, made after that many rehashes. -/
structure Iterator where
  key : Bytes
  rehashed : Nat
  deriving DecidableEq

/-- `LetsEncrypt` -/
structure LetsEncrypt where
  /-- `acmeClient.has_value()` -/
  acmeClient : Bool := false
  challenges : Map Bytes Bytes := fun _ => none
  /-- how often `challenges` was rehashed -/
  rehashed : Nat := 0
  challengeIterators : List Iterator := []
  /-- an iterator was used that was no longer valid -/
  undefined : Bool := false

/-- A call of the callback in `issueCertificate`. -/
structure Challenge where
  host : Bytes
  domain : Bytes
  key : Bytes
  authorization : Bytes
  /-- does `emplace` rehash the map, so that no iterator is valid any more? -/
  rehashes : Bool := false

namespace LetsEncrypt

/-- `challenges.erase(iter)` -/
def eraseAt (p : LetsEncrypt) (iter : Iterator) : LetsEncrypt :=
  if iter.rehashed = p.rehashed then { p with challenges := p.challenges.erase iter.key }
  else { p with undefined := true }

/-- `while (challengeIterators.size() > MAX_CHALLENGES)` -/
def dropOldest (p : LetsEncrypt) : List Iterator → LetsEncrypt
  | [] => { p with challengeIterators := [] }
  | front :: rest =>
    if MAX_CHALLENGES < rest.length + 1 then (p.eraseAt front).dropOldest rest
    else { p with challengeIterators := front :: rest }

/-- `challenges.emplace` of a path that is not there. -/
def emplaced (p : LetsEncrypt) (path authorization : Bytes) (rehashes : Bool) : LetsEncrypt :=
  { p with
    challenges := p.challenges.set path authorization
    rehashed := if rehashes then p.rehashed + 1 else p.rehashed }

/-- The callback under `challengesMutex`. -/
def publish (p : LetsEncrypt) (path authorization : Bytes) (rehashes : Bool) : LetsEncrypt :=
  if (p.challenges path).isSome then p
  else
    let p := p.emplaced path authorization rehashes
    p.dropOldest (p.challengeIterators ++ [⟨path, p.rehashed⟩])

end LetsEncrypt

namespace Challenge

/-- `std::format("http://{}/", host)` -/
def hostPrefix (c : Challenge) : Bytes := ascii "http://" ++ c.host ++ ascii "/"

/-- `key.substr(prefix.size() - 1)` -/
def path (c : Challenge) : Bytes := c.key.drop (c.hostPrefix.length - 1)

/-- Does the callback not throw? -/
def Accepted (c : Challenge) : Prop :=
  c.domain = c.host ∧ c.hostPrefix.isPrefixOf c.key = true

instance (c : Challenge) : Decidable c.Accepted := by
  unfold Accepted
  infer_instance

end Challenge

namespace LetsEncrypt

/-- The callback in `issueCertificate`. -/
def challenge (p : LetsEncrypt) (c : Challenge) : Except Exception LetsEncrypt :=
  if c.domain ≠ c.host then
    .error (.runtimeError (ascii "Mismatch between host \x7b" ++ c.host ++
      ascii "\x7d and domain \x7b" ++ c.domain ++ ascii "\x7d"))
  else if !c.hostPrefix.isPrefixOf c.key then
    .error (.runtimeError (ascii "Key parameter \x7b" ++ c.key ++
      ascii "\x7d doesn't begin with expected \x7b" ++ c.hostPrefix ++ ascii "\x7d"))
  else .ok (p.publish c.path c.authorization c.rehashes)

/-- Where challenges are asked for. -/
def wellKnown : Bytes := ascii "/.well-known/acme-challenge/"

/-- `LetsEncrypt::handle` -/
def handle (p : LetsEncrypt) (request : Request) (enabled : Bool) : Run CancelableResult :=
  if !enabled || !p.acmeClient then pure .pass
  else if wellKnown.isPrefixOf request.path then
    match p.challenges request.path with
    | some authorization => do
      Trace.emit (.respond { code := 200, content := authorization } none)
      pure .approve
    | none => do
      Trace.emit (.respond { code := 404, content := ascii "Not Found" } none)
      Trace.emit .closed
      pure .kill
  else pure .pass

/-- A GET for this path is answered with this authorization. -/
def Answers (p : LetsEncrypt) (path authorization : Bytes) : Prop :=
  ∀ request : Request, request.path = path → p.handle request true =
    ⟨[.respond { code := 200, content := authorization } none], .ok .approve⟩

/-- What is answered is what is in the map below the well-known place. -/
theorem answers_iff {p : LetsEncrypt} (hclient : p.acmeClient = true) {path authorization : Bytes} :
    p.Answers path authorization ↔
      wellKnown.isPrefixOf path = true ∧ p.challenges path = some authorization := by
  unfold Answers handle
  rw [hclient]
  constructor
  · intro hanswers
    have hrequest := hanswers { path := path } rfl
    dsimp only at hrequest
    split at hrequest
    · rename_i hno
      exact absurd hno (by decide)
    · split at hrequest
      · rename_i hbelow
        refine ⟨hbelow, ?_⟩
        cases hfound : p.challenges path with
        | none =>
          rw [hfound] at hrequest
          exact nomatch congrArg Trace.result hrequest
        | some found =>
          rw [hfound] at hrequest
          have hevents := congrArg Trace.events hrequest
          injection (List.cons.inj hevents).1 with hresponse
          injection hresponse with _ hcontent
          rw [hcontent]
      · exact nomatch congrArg Trace.result hrequest
  · rintro ⟨hbelow, hfound⟩ request rfl
    rw [if_neg (by decide), if_pos hbelow, hfound]
    rfl

/-! ## The map and the deque -/

/-- The map and the keys that the deque lists. -/
def fifo (p : LetsEncrypt) : Fifo Bytes Bytes := ⟨p.challenges, p.challengeIterators.map (·.key)⟩

/-- No iterator was used that was not valid, and those in the deque are. -/
structure Valid (p : LetsEncrypt) : Prop where
  defined : p.undefined = false
  iterators : ∀ iter ∈ p.challengeIterators, iter.rehashed = p.rehashed

variable {p : LetsEncrypt} {iterators : List Iterator} {path authorization : Bytes}
  {rehashes : Bool}

@[simp] theorem eraseAt_acmeClient (iter : Iterator) :
    (p.eraseAt iter).acmeClient = p.acmeClient := by
  unfold eraseAt
  split <;> rfl

@[simp] theorem dropOldest_acmeClient : (p.dropOldest iterators).acmeClient = p.acmeClient := by
  induction iterators generalizing p with
  | nil => rfl
  | cons front rest ih =>
    unfold dropOldest
    split
    · rw [ih, eraseAt_acmeClient]
    · rfl

@[simp] theorem publish_acmeClient :
    (p.publish path authorization rehashes).acmeClient = p.acmeClient := by
  unfold publish
  split
  · rfl
  · exact dropOldest_acmeClient

/-- With valid iterators the loop erases the keys that it takes off the deque. -/
theorem dropOldest_valid (hdefined : p.undefined = false)
    (hiterators : ∀ iter ∈ iterators, iter.rehashed = p.rehashed) :
    (p.dropOldest iterators).fifo =
        Fifo.trim MAX_CHALLENGES p.challenges (iterators.map (·.key)) ∧
      (p.dropOldest iterators).Valid := by
  induction iterators generalizing p with
  | nil => exact ⟨rfl, hdefined, hiterators⟩
  | cons front rest ih =>
    have hrest : ∀ iter ∈ rest, iter.rehashed = p.rehashed :=
      fun iter hiter => hiterators iter (List.mem_cons_of_mem front hiter)
    have herase : p.eraseAt front = { p with challenges := p.challenges.erase front.key } :=
      if_pos (hiterators front List.mem_cons_self)
    unfold dropOldest
    rw [List.map_cons, Fifo.trim, List.length_map]
    split
    · rw [herase]
      exact ih hdefined hrest
    · exact ⟨rfl, hdefined, hiterators⟩

/-- What is undefined stays so. -/
theorem dropOldest_undefined (iterators : List Iterator) (h : p.undefined = true) :
    (p.dropOldest iterators).undefined = true := by
  induction iterators generalizing p with
  | nil => exact h
  | cons front rest ih =>
    unfold dropOldest
    split
    · refine ih ?_
      unfold eraseAt
      split
      · exact h
      · rfl
    · exact h

/-- The loop uses an iterator that is not valid, or leaves it in the deque. -/
theorem not_valid_dropOldest {front : Iterator} (h : front.rehashed ≠ p.rehashed) :
    ¬(p.dropOldest (front :: iterators)).Valid := by
  intro hvalid
  unfold dropOldest at hvalid
  split at hvalid
  · have hundefined : (p.eraseAt front).undefined = true := by
      unfold eraseAt
      rw [if_neg h]
    have hlater := dropOldest_undefined iterators hundefined
    exact Bool.false_ne_true (hvalid.defined.symm.trans hlater)
  · exact h (hvalid.iterators front List.mem_cons_self)

theorem publish_of_some (h : p.challenges path ≠ none) :
    p.publish path authorization rehashes = p :=
  if_pos (Option.isSome_iff_ne_none.mpr h)

theorem publish_of_none (h : p.challenges path = none) :
    p.publish path authorization rehashes = (p.emplaced path authorization rehashes).dropOldest
      (p.challengeIterators ++ [⟨path, (p.emplaced path authorization rehashes).rehashed⟩]) :=
  if_neg (by rw [h]; exact Bool.false_ne_true)

/-- A rehash while the deque holds iterators. -/
theorem not_valid_publish (hvalid : p.Valid) (hnone : p.challenges path = none)
    (hsome : p.challengeIterators ≠ []) : ¬(p.publish path authorization true).Valid := by
  obtain ⟨front, rest, heq⟩ := List.exists_cons_of_ne_nil hsome
  rw [publish_of_none hnone, heq, List.cons_append]
  refine not_valid_dropOldest ?_
  rw [hvalid.iterators front (heq ▸ List.mem_cons_self)]
  exact (Nat.succ_ne_self p.rehashed).symm

/-- The callback enters the path, as long as no iterator in the deque is made invalid. -/
theorem publish_valid (authorization : Bytes) (hvalid : p.Valid)
    (hrehash : p.challenges path = none → rehashes = true → p.challengeIterators = []) :
    (p.publish path authorization rehashes).fifo =
        p.fifo.enter MAX_CHALLENGES path authorization ∧
      (p.publish path authorization rehashes).Valid := by
  by_cases hnone : p.challenges path = none
  · have hiterators : ∀ iter ∈ p.challengeIterators ++
        [⟨path, (p.emplaced path authorization rehashes).rehashed⟩],
        iter.rehashed = (p.emplaced path authorization rehashes).rehashed := by
      intro iter hiter
      rcases List.mem_append.mp hiter with hold | hnew
      · cases rehashes with
        | false => exact hvalid.iterators iter hold
        | true =>
          rw [hrehash hnone rfl] at hold
          exact absurd hold List.not_mem_nil
      · rw [List.mem_singleton.mp hnew]
    rw [publish_of_none hnone, Fifo.enter_of_none hnone]
    have hdrop := dropOldest_valid (p := p.emplaced path authorization rehashes) hvalid.defined
      hiterators
    rwa [List.map_append] at hdrop
  · rw [publish_of_some hnone, Fifo.enter_of_some hnone]
    exact ⟨rfl, hvalid⟩

end LetsEncrypt

/-! ## Callbacks one after another -/

/-- The plugin, with what the callbacks have done: the paths they inserted, in order, and the path
    and the authorization of the latest one that did not throw. -/
structure Callbacks where
  plugin : LetsEncrypt
  inserted : List Bytes := []
  latest : Option (Bytes × Bytes) := none

namespace Callbacks

/-- `postinit` has made an ACME client. -/
def init : Callbacks := { plugin := { acmeClient := true } }

/-- The next callback. -/
def step (s : Callbacks) (c : Challenge) : Option Callbacks :=
  match s.plugin.challenge c with
  | .error _ => some s
  | .ok plugin => some {
      plugin
      inserted := if s.plugin.challenges c.path = none then s.inserted ++ [c.path] else s.inserted
      latest := some (c.path, c.authorization) }

/-- The deque lists every key of the map exactly once, the map holds no more than it may, those
    that were inserted last, and a GET for the latest key is answered with its authorization. -/
structure InStep (s : Callbacks) : Prop where
  valid : s.plugin.Valid
  once : (s.plugin.challengeIterators.map (·.key)).Nodup
  listed : ∀ key, key ∈ s.plugin.challengeIterators.map (·.key) ↔ s.plugin.challenges key ≠ none
  size : {key | s.plugin.challenges key ≠ none}.encard ≤ MAX_CHALLENGES
  oldest : s.plugin.challengeIterators.map (·.key) = s.inserted.rtake MAX_CHALLENGES
  latest : ∀ path authorization, s.latest = some (path, authorization) →
    s.plugin.Answers path authorization

/-- A callback that does not throw gives a path that is looked up. If the path is there, it has
    this authorization; if it is not, no rehash makes an iterator invalid. -/
def Published (s : Callbacks) (c : Challenge) : Prop :=
  c.Accepted → LetsEncrypt.wellKnown.isPrefixOf c.path = true ∧
    (∀ old, s.plugin.challenges c.path = some old → old = c.authorization) ∧
    (s.plugin.challenges c.path = none → c.rehashes = true → s.plugin.challengeIterators = [])

variable {s t : Callbacks} {c : Challenge}

theorem step_accepted (h : c.Accepted) : s.step c = some {
    plugin := s.plugin.publish c.path c.authorization c.rehashes
    inserted := if s.plugin.challenges c.path = none then s.inserted ++ [c.path] else s.inserted
    latest := some (c.path, c.authorization) } := by
  unfold step LetsEncrypt.challenge
  rw [if_neg (not_not.mpr h.1), if_neg (by rw [h.2]; decide)]

theorem step_thrown (h : ¬c.Accepted) : s.step c = some s := by
  unfold step LetsEncrypt.challenge
  by_cases hdomain : c.domain = c.host
  · have hkey : ¬c.hostPrefix.isPrefixOf c.key = true := fun hkey => h ⟨hdomain, hkey⟩
    rw [if_neg (not_not.mpr hdomain), if_pos (by rw [Bool.not_eq_true] at hkey; rw [hkey]; rfl)]
  · rw [if_pos hdomain]

/-- The map and the deque are a FIFO of paths, which holds what was inserted last. -/
theorem inStep_iff_fifo : s.InStep ↔ s.plugin.Valid ∧ s.plugin.fifo.InStep MAX_CHALLENGES ∧
    s.plugin.fifo.order = s.inserted.rtake MAX_CHALLENGES ∧
    ∀ path authorization, s.latest = some (path, authorization) →
      s.plugin.Answers path authorization := by
  constructor
  · intro h
    refine ⟨h.valid, ⟨h.once, h.listed, ?_⟩, h.oldest, h.latest⟩
    show (s.plugin.challengeIterators.map (·.key)).length ≤ MAX_CHALLENGES
    rw [h.oldest]
    exact Fifo.length_rtake_le s.inserted
  · rintro ⟨hvalid, hfifo, horder, hlatest⟩
    exact ⟨hvalid, hfifo.nodup, hfifo.mem_iff, hfifo.encard_le, horder, hlatest⟩

theorem init_inStep : init.InStep :=
  inStep_iff_fifo.mpr ⟨⟨rfl, fun _ h => absurd h List.not_mem_nil⟩,
    ⟨List.nodup_nil, fun _ => iff_of_false List.not_mem_nil (not_not.mpr rfl), Nat.zero_le _⟩,
    rfl, fun _ _ h => nomatch h⟩

/-- Of a path that is entered, what is found is the authorization if and only if it was not there
    with another one. -/
theorem getD_eq_iff {found : Option Bytes} {authorization : Bytes} :
    some (found.getD authorization) = some authorization ↔
      ∀ old, found = some old → old = authorization := by
  cases found with
  | none => simp
  | some old => simp

/-- A callback leaves the map and the deque in step, and its path answered, if and only if it is
    published. -/
theorem step_inStep_iff (hclient : s.plugin.acmeClient = true) (hs : s.InStep)
    (hstep : s.step c = some t) : t.InStep ↔ s.Published c := by
  by_cases haccepted : c.Accepted
  · rw [step_accepted haccepted, Option.some_inj] at hstep
    subst hstep
    unfold Published
    rw [imp_iff_right haccepted, inStep_iff_fifo]
    obtain ⟨hvalid, hin, horder, -⟩ := inStep_iff_fifo.mp hs
    by_cases hrehash : s.plugin.challenges c.path = none → c.rehashes = true →
        s.plugin.challengeIterators = []
    · obtain ⟨hfifo, hvalid'⟩ :=
        LetsEncrypt.publish_valid c.authorization hvalid hrehash
      have hin' := hin.enter c.path c.authorization
      have horder' := Fifo.enter_order (k := c.path) (v := c.authorization) horder
      have hself := hin.enter_self (by decide) c.path c.authorization
      rw [← hfifo] at hin' horder' hself
      have hfound : (s.plugin.publish c.path c.authorization c.rehashes).challenges c.path =
          some ((s.plugin.challenges c.path).getD c.authorization) := hself
      have hanswers : (s.plugin.publish c.path c.authorization c.rehashes).Answers c.path
          c.authorization ↔ LetsEncrypt.wellKnown.isPrefixOf c.path = true ∧
            ∀ old, s.plugin.challenges c.path = some old → old = c.authorization := by
        rw [LetsEncrypt.answers_iff (LetsEncrypt.publish_acmeClient.trans hclient), hfound,
          getD_eq_iff]
      have hpublished := (and_iff_left hrehash).trans hanswers.symm
      rw [and_assoc] at hpublished
      refine Iff.trans ?_ hpublished.symm
      constructor
      · rintro ⟨-, -, -, hlatest⟩
        exact hlatest c.path c.authorization rfl
      · intro hlatest
        refine ⟨hvalid', hin', horder', ?_⟩
        intro path authorization hsame
        obtain ⟨rfl, rfl⟩ := Prod.mk.inj (Option.some.inj hsame)
        exact hlatest
    · refine iff_of_false ?_ fun h => hrehash h.2.2
      rintro ⟨hvalid', -⟩
      push Not at hrehash
      obtain ⟨hnone, hrehashes, hsome⟩ := hrehash
      rw [hrehashes] at hvalid'
      exact LetsEncrypt.not_valid_publish hvalid hnone hsome hvalid'
  · rw [step_thrown haccepted, Option.some_inj] at hstep
    rw [← hstep]
    exact iff_of_true hs fun h => absurd h haccepted

/-- Over any callbacks: the map and the deque are in step, and the latest path is answered, in
    every state, if and only if every callback is published. -/
theorem inStep_iff (cs : List Challenge) :
    AllStates step InStep init cs ↔ AllSteps step Published init cs := by
  have hclient : ∀ s c t, s.plugin.acmeClient = true → InStep s → step s c = some t → InStep t →
      t.plugin.acmeClient = true := by
    intro s c t hclient _ hstep _
    by_cases haccepted : c.Accepted
    · rw [step_accepted haccepted, Option.some_inj] at hstep
      rw [← hstep]
      exact LetsEncrypt.publish_acmeClient.trans hclient
    · rw [step_thrown haccepted, Option.some_inj] at hstep
      rwa [← hstep]
  exact allStates_iff hclient (fun _ _ _ hclient hs hstep => step_inStep_iff hclient hs hstep) cs
    rfl init_inStep

/-- A path is given twice, with two authorizations. A GET for it is answered with the first. -/
theorem not_inStep_repeated :
    let key := ascii "http://a.org/.well-known/acme-challenge/t"
    let first : Challenge := ⟨ascii "a.org", ascii "a.org", key, ascii "one", false⟩
    let second : Challenge := ⟨ascii "a.org", ascii "a.org", key, ascii "two", false⟩
    ∃ s, exec step init [first, second] = some s ∧
      s.latest = some (ascii "/.well-known/acme-challenge/t", ascii "two") ∧
      s.plugin.challenges (ascii "/.well-known/acme-challenge/t") = some (ascii "one") ∧
      ¬AllStates step InStep init [first, second] := by
  intro key first second
  have hsome : ((exec step init [first, second]).any fun s =>
      s.latest = some (ascii "/.well-known/acme-challenge/t", ascii "two") ∧
        s.plugin.challenges (ascii "/.well-known/acme-challenge/t") = some (ascii "one") ∧
        s.plugin.acmeClient = true) = true := by decide
  obtain ⟨s, hexec, hs⟩ := (Option.any_eq_true _ _).mp hsome
  obtain ⟨hlatest, hfound, hclient⟩ := of_decide_eq_true hs
  refine ⟨s, hexec, hlatest, hfound, fun hall => ?_⟩
  have hanswers := (hall.exec hexec).latest _ _ hlatest
  have hsame := ((LetsEncrypt.answers_iff hclient).mp hanswers).2
  rw [hfound] at hsame
  exact absurd hsame (by decide)

end Callbacks

/-! ## The certificate -/

namespace LetsEncrypt

variable {Bio X509 Key : Type} {ssl : Net.OpenSSL Bio X509 Key} {host fullchain privkey : Bytes}
  {m : Map Bytes (Net.Certificates X509 Key)}

/-- `end` in `finishCertificate` -/
def certificateEnd : Bytes := ascii "-----END CERTIFICATE-----"

/-- `LetsEncrypt::finishCertificate`, if there is an HTTPS server: how it ends, and the server's
    map. The file that the certificate is cached in is left out. -/
def finishCertificate (ssl : Net.OpenSSL Bio X509 Key) (host fullchain privkey : Bytes)
    (m : Map Bytes (Net.Certificates X509 Key)) :
    Except Exception Unit × Map Bytes (Net.Certificates X509 Key) :=
  match findString certificateEnd fullchain with
  | none => (.error (.runtimeError (ascii "Couldn't find end of first fullchain cert")), m)
  | some position =>
    let firstCert := fullchain.take (position + certificateEnd.length)
    Net.addCertificate ssl host firstCert privkey (fullchain.drop firstCert.length) m

/-- A chain of a single certificate, with nothing behind it: the call throws, and the certificate
    that was to be renewed is gone. -/
theorem finishCertificate_alone {certificate : Bytes}
    (h : findString certificateEnd (certificate ++ certificateEnd) = some certificate.length) :
    ∃ e, finishCertificate ssl host (certificate ++ certificateEnd) privkey m =
      (.error e, m.erase host) := by
  unfold finishCertificate
  rw [h]
  dsimp only
  rw [← List.length_append, List.take_length, List.drop_length]
  exact Net.addCertificate_alone rfl

end LetsEncrypt

end Algiz.Plugins
