/-
  What a message can do, whoever sends it.

  `Session` is the plugin with `allClients` of its server, where `ProbabilityChess::send` looks up
  everybody that a match sends to. A client that goes leaves its match first, so nobody is missing
  there (`Attended`). A request that is refused changes nothing (`Quiet`), and there are two kinds
  of messages for which `handleMessage` itself fails (`handledWell_iff`): `:` has no words, and
  `getPlayer` throws a `std::runtime_error` at the move of a spectator, where the handler catches a
  `ChessError` only.
-/
import Algiz.ProbChess.ProbabilityChess
import Algiz.ProbChess.Moves

namespace Algiz.ProbChess

open Match Board ProbabilityChess

/-! ## Sessions -/

/-- The plugin, and the clients of its server. -/
structure Session where
  plugin : ProbabilityChess
  /-- `server->allClients` -/
  allClients : List Int

/-- What happens to a session. -/
inductive SessionEvent where
  /-- `addClient` -/
  | connect (client : Int)
  /-- `handleMessage` -/
  | message (client : Int) (message : Bytes) (random : List Nat)
  /-- `closeWebSocket`, which calls `handleClose` -/
  | close (client : Int)
  /-- `Worker::remove`: `closeHandler`, and then `allClients.erase` -/
  | remove (client : Int)

namespace Session

/-- Before the first client. -/
def initial : Session := ⟨ProbabilityChess.initial, []⟩

/-- The session after an event; `none` if there is no such client, or if the call has not
    returned. -/
def step (s : Session) : SessionEvent → Option Session
  | .connect client =>
    if client ∈ s.allClients then none else some { s with allClients := client :: s.allClients }
  | .message client message random =>
    if client ∈ s.allClients then
      (s.plugin.handleMessage client message random).map fun out => { s with plugin := out.plugin }
    else none
  | .close client =>
    if client ∈ s.allClients then
      (s.plugin.leaveMatch client).map fun out => { s with plugin := out.plugin }
    else none
  | .remove client =>
    if client ∈ s.allClients then
      (s.plugin.leaveMatch client).map fun out =>
        ⟨out.plugin, s.allClients.filter (· ≠ client)⟩
    else none

end Session

/-! ## What is asked for -/

/-- `split(message.substr(1), " ")` -/
def words (message : Bytes) : List Bytes := split (message.drop 1) (ascii " ") true

/-- A message that is read as this request. -/
def AsksFor (message : Bytes) (request : Request) : Prop :=
  message.head? = some 58 ∧ ∃ verb rest, words message = verb :: rest ∧
    parseWords verb rest = .ok request

/-- The client is in a match in which it is not a player. -/
def ProbabilityChess.Spectates (p : ProbabilityChess) (client : Int) : Prop :=
  ∃ address m, p.matchesByClient client = some address ∧ p.objects address = some m ∧
    m.host ≠ some (.human client) ∧ m.guest ≠ some (.human client)

/-- A message that is refused: the answer is an error, or `leaveMatch` warns that the client is not
    in a match. -/
def Refused (p : ProbabilityChess) (client : Int) (message : Bytes) (out : Handled) : Prop :=
  out.error ≠ none ∨ AsksFor message .leaveMatch ∧ p.matchesByClient client = none

/-- What the handler promises for a message of a client. -/
structure HandledWell (s : Session) (client : Int) (message : Bytes) : Prop where
  /-- `words[0]` is there -/
  indexed : message.head? = some 58 → words message ≠ []
  /-- `allClients.at` finds everybody whom a match sends to -/
  found : ∀ address m, s.plugin.Lives address m → ∀ other, m.HasMember other →
    other ∈ s.allClients
  /-- nothing is thrown -/
  thrown : ∀ random out, s.plugin.handleMessage client message random = some out →
    out.thrown = none
  /-- what is refused leaves everything as it was, and the connection open -/
  refused : ∀ random out, s.plugin.handleMessage client message random = some out →
    Refused s.plugin client message out → s.step (.message client message random) = some s

section Words

variable {message : Bytes}

/-- Of the messages that begin with a colon, the colon alone has no words. -/
theorem words_ne_nil_iff :
    (message.head? = some 58 → words message ≠ []) ↔ message ≠ ascii ":" := by
  unfold words
  rw [Ne, split_eq_nil]
  cases message with
  | nil => exact iff_of_true (fun h => nomatch h) fun h => nomatch h
  | cons b rest =>
    have hascii : ascii ":" = [58] := rfl
    rw [hascii, Ne, List.head?_cons, Option.some_inj, List.drop_one, List.tail_cons,
      List.cons.injEq, not_and]

theorem handleMessage_of_asksFor {p : ProbabilityChess} {client : Int} {random : List Nat}
    {request : Request} (h : AsksFor message request) :
    p.handleMessage client message random = p.handleRequest client random request := by
  obtain ⟨hcolon, verb, rest, hwords, hparse⟩ := h
  unfold words at hwords
  unfold ProbabilityChess.handleMessage
  rw [if_neg (not_not_intro hcolon), hwords]
  dsimp only
  rw [hparse]

end Words

/-! ## One request -/

/-- What a request leaves that throws nothing: where it is refused all is as it was, and only the
    client itself can come into a match. -/
structure Quiet (p : ProbabilityChess) (client : Int) (out : Handled) : Prop where
  thrown : out.thrown = none
  refused : out.error ≠ none → out.plugin = p
  enters : ∀ other address, out.plugin.matchesByClient other = some address →
    other = client ∨ ∃ address', p.matchesByClient other = some address'

section Requests

variable {p : ProbabilityChess} {client : Int} {random : List Nat} {out : Handled} {address : Nat}
  {m : Match}

theorem quiet_refuse {error : String} (h : p.refuse error = some out) : Quiet p client out := by
  obtain rfl := Option.some.inj h
  exact ⟨rfl, fun _ => rfl, fun other address hother => .inr ⟨address, hother⟩⟩

theorem quiet_done {q : ProbabilityChess} (henters : ∀ other address,
    q.matchesByClient other = some address →
      other = client ∨ ∃ address', p.matchesByClient other = some address') :
    Quiet p client q.done :=
  ⟨rfl, fun h => absurd rfl h, henters⟩

theorem quiet_nothing : Quiet p client p.done :=
  quiet_done fun _ address hother => .inr ⟨address, hother⟩

/-- The registry after a client has been entered, and the match has perhaps ended. -/
theorem enters_store {q : ProbabilityChess} {clients : Lib.Map Int Nat} {new : Nat}
    (hclients : q.matchesByClient = Lib.Map.emplace clients client new) (other : Int)
    (found : Nat) (h : (q.store address m).matchesByClient other = some found) :
    other = client ∨ ∃ address', clients other = some address' := by
  have hemplaced := ((store_clients q address m other found).mp h).1
  rw [hclients] at hemplaced
  by_cases hother : other = client
  · exact .inl hother
  · refine .inr ⟨found, ?_⟩
    unfold Lib.Map.emplace at hemplaced
    split at hemplaced
    · exact hemplaced
    · rwa [Lib.Map.set_of_ne _ hother] at hemplaced

theorem quiet_createMatch {id : Bytes} {columnCount : Int} {color : Color} {noSkip : Bool}
    {type : Bytes} (h : p.createMatch client id columnCount color noSkip type random = some out) :
    Quiet p client out := by
  unfold ProbabilityChess.createMatch at h
  split at h
  · exact quiet_refuse h
  split at h
  · exact quiet_refuse h
  split at h
  · exact quiet_refuse h
  split at h
  · exact quiet_refuse h
  split at h
  · exact quiet_refuse h
  obtain ⟨⟨m, random'⟩, -, rfl⟩ := Option.map_eq_some_iff.mp h
  exact quiet_done (enters_store rfl)

theorem quiet_joinMatch {id : Bytes} {asSpectator : Bool}
    (h : p.joinMatch client id asSpectator random = some out) : Quiet p client out := by
  unfold ProbabilityChess.joinMatch at h
  split at h
  · exact quiet_refuse h
  split at h
  · exact quiet_refuse h
  split at h
  · cases h
  split at h
  · exact quiet_refuse h
  cases asSpectator with
  | true =>
    obtain rfl := Option.some.inj h
    exact quiet_done (enters_store rfl)
  | false =>
    obtain ⟨⟨m, random'⟩, -, rfl⟩ := Option.map_eq_some_iff.mp h
    exact quiet_done (enters_store rfl)

/-- A client that leaves is in no match, and nobody has come into one. -/
theorem leaveMatch_left (h : p.leaveMatch client = some out) :
    Quiet p client out ∧ out.plugin.matchesByClient client = none := by
  unfold ProbabilityChess.leaveMatch at h
  split at h
  · rename_i hnone
    obtain rfl := Option.some.inj h
    exact ⟨quiet_nothing, hnone⟩
  split at h
  · exact nomatch h
  obtain rfl := Option.some.inj h
  refine ⟨quiet_done fun other address hother => .inr ⟨address, ?_⟩, Lib.Map.erase_self ..⟩
  exact ((store_clients p _ _ other address).mp (Lib.Map.erase_eq_some.mp hother).1).1

/-- A match that nothing was done to stays where it is. -/
theorem store_same (hm : p.objects address = some m) (hopen : m.isOver = false) :
    p.store address m = p := by
  unfold ProbabilityChess.store
  rw [hopen, Lib.Map.set_of_eq hm]
  rfl

theorem getPlayer_eq_none_iff : m.getPlayer client = none ↔
    m.host ≠ some (.human client) ∧ m.guest ≠ some (.human client) := by
  unfold getPlayer
  split
  · rename_i hhost
    simp [hhost]
  · rename_i hhost
    split
    · rename_i hguest
      simp [hguest]
    · rename_i hguest
      exact iff_of_true rfl ⟨hhost, hguest⟩

/-- A move of a spectator throws, and nothing else is done. -/
theorem makeMove_of_spectates (hp : Registered p) (h : p.Spectates client) (move : Move)
    (random : List Nat) : ∃ what, p.makeMove client move random =
      some ⟨p, none, some (.runtimeError what)⟩ := by
  obtain ⟨address, m, hclient, hm, hplaces⟩ := h
  obtain ⟨m', id, hm', hid⟩ := hp.address hclient
  have hopen := hp.stepped hid hm
  unfold ProbabilityChess.makeMove Match.requestMove
  rw [hclient]
  dsimp only
  rw [hm]
  dsimp only
  rw [getPlayer_eq_none_iff.mpr hplaces]
  dsimp only [Option.map_some]
  rw [store_same hm hopen]
  exact ⟨_, rfl⟩

theorem makeMove_error {player : Role} {move : Move} {what : Bytes}
    (h : m.checkMove player move = .error what) :
    m.makeMove player move random = some ⟨m, random, some (.chessError what)⟩ := by
  unfold Match.makeMove makeMoveWithin
  rw [h]

/-- A move of a player is refused, and then nothing is done, or no exception leaves the call. -/
theorem quiet_makeMove (hp : Registered p) (hspectates : ¬p.Spectates client) {move : Move}
    (h : p.makeMove client move random = some out) : Quiet p client out := by
  unfold ProbabilityChess.makeMove at h
  split at h
  · exact quiet_refuse h
  rename_i address hclient
  obtain ⟨m, id, hm, hid⟩ := hp.address hclient
  have hopen := hp.stepped hid hm
  have hwell : WellPlaced m.board := (hp.played address m hm).sound.wellPlaced
  rw [hm] at h
  obtain ⟨moved, hmoved, rfl⟩ := Option.map_eq_some_iff.mp h
  have hstore : ∀ other found, (p.store address moved.left).matchesByClient other = some found →
      other = client ∨ ∃ address', p.matchesByClient other = some address' :=
    fun other found hother => .inr ⟨found, ((store_clients p _ _ other found).mp hother).1⟩
  unfold Match.requestMove at hmoved
  cases hplayer : m.getPlayer client with
  | none => exact absurd ⟨address, m, hclient, hm, getPlayer_eq_none_iff.mp hplayer⟩ hspectates
  | some player =>
    rw [hplayer] at hmoved
    cases hcheck : m.checkMove player move with
    | error what =>
      obtain rfl := Option.some.inj ((makeMove_error hcheck).symm.trans hmoved)
      dsimp only at hstore ⊢
      exact ⟨rfl, fun _ => store_same hm hopen, hstore⟩
    | ok x =>
      obtain ⟨piece, target⟩ := x
      have hthrown : moved.thrown = none := makeMoveWithin_accepted hwell hcheck hmoved
      rw [hthrown]
      exact quiet_done hstore

/-- What is done for a request: a spectator's move throws, and anything else is quiet. -/
theorem handleRequest_cases (hp : Registered p) {request : Request}
    (h : p.handleRequest client random request = some out) :
    Quiet p client out ∨
      p.Spectates client ∧ (∃ move, request = .move move) ∧ out.plugin = p ∧ out.error = none := by
  cases request with
  | create id columnCount color noSkip type => exact .inl (quiet_createMatch h)
  | join id => exact .inl (quiet_joinMatch h)
  | spectate id => exact .inl (quiet_joinMatch h)
  | createOrJoin id columnCount color noSkip type =>
    unfold ProbabilityChess.handleRequest at h
    dsimp only at h
    split at h
    · exact .inl (quiet_joinMatch h)
    · exact .inl (quiet_createMatch h)
  | move move =>
    by_cases hspectates : p.Spectates client
    · obtain ⟨what, hthrows⟩ := makeMove_of_spectates hp hspectates move random
      obtain rfl := Option.some.inj (hthrows.symm.trans h)
      exact .inr ⟨hspectates, ⟨move, rfl⟩, rfl, rfl⟩
    · exact .inl (quiet_makeMove hp hspectates h)
  | getMatches =>
    obtain rfl := Option.some.inj h
    exact .inl quiet_nothing
  | fen =>
    unfold ProbabilityChess.handleRequest at h
    dsimp only at h
    split at h
    · exact .inl (quiet_refuse h)
    · obtain rfl := Option.some.inj h
      exact .inl quiet_nothing
  | leaveMatch => exact .inl (leaveMatch_left h).1

theorem handleMessage_cases (hp : Registered p) {message : Bytes}
    (h : p.handleMessage client message random = some out) :
    Quiet p client out ∨ p.Spectates client ∧ (∃ move, AsksFor message (.move move)) ∧
      out.plugin = p ∧ out.error = none := by
  unfold ProbabilityChess.handleMessage at h
  split at h
  · exact .inl (quiet_refuse h)
  rename_i hcolon
  split at h
  · exact nomatch h
  rename_i verb rest hwords
  split at h
  · exact .inl (quiet_refuse h)
  · rename_i request hparse
    have hasks : AsksFor message request := ⟨not_not.mp hcolon, verb, rest, hwords, hparse⟩
    obtain hquiet | ⟨hspectates, ⟨move, rfl⟩, hsame⟩ := handleRequest_cases hp h
    · exact .inl hquiet
    · exact .inr ⟨hspectates, ⟨move, hasks⟩, hsame⟩

end Requests

/-! ## Every state of a session -/

/-- What holds of a session between two events: everybody in a match has a connection. -/
structure Attended (s : Session) : Prop where
  registered : Registered s.plugin
  connected : ∀ client address, s.plugin.matchesByClient client = some address →
    client ∈ s.allClients

section Sessions

variable {s t : Session} {client : Int}

theorem attended_initial : Attended Session.initial :=
  ⟨registered_initial, fun _ _ h => nomatch h⟩

/-- The calls of a client that is connected. -/
theorem Attended.call (hs : Attended s) (hclient : client ∈ s.allClients) {q : ProbabilityChess}
    (hq : Registered q) (henters : ∀ other address, q.matchesByClient other = some address →
      other = client ∨ ∃ address', s.plugin.matchesByClient other = some address') :
    Attended { s with plugin := q } := by
  refine ⟨hq, fun other address hother => ?_⟩
  obtain rfl | ⟨address', hother⟩ := henters other address hother
  · exact hclient
  · exact hs.connected other address' hother

theorem Attended.step (hs : Attended s) {event : SessionEvent} (h : s.step event = some t) :
    Attended t := by
  unfold Session.step at h
  cases event with
  | connect client =>
    dsimp only at h
    split at h
    · cases h
    obtain rfl := Option.some.inj h
    exact ⟨hs.registered, fun other address hother =>
      List.mem_cons_of_mem _ (hs.connected other address hother)⟩
  | message client message random =>
    dsimp only at h
    split at h
    · rename_i hclient
      obtain ⟨out, hout, rfl⟩ := Option.map_eq_some_iff.mp h
      refine hs.call hclient (hs.registered.handleMessage hout) fun other address hother => ?_
      obtain hquiet | ⟨-, -, hsame, -⟩ := handleMessage_cases hs.registered hout
      · exact hquiet.enters other address hother
      · rw [hsame] at hother
        exact .inr ⟨address, hother⟩
    · cases h
  | close client =>
    dsimp only at h
    split at h
    · rename_i hclient
      obtain ⟨out, hout, rfl⟩ := Option.map_eq_some_iff.mp h
      exact hs.call hclient (hs.registered.leaveMatch hout) (leaveMatch_left hout).1.enters
    · cases h
  | remove client =>
    dsimp only at h
    split at h
    · rename_i hclient
      obtain ⟨out, hout, rfl⟩ := Option.map_eq_some_iff.mp h
      obtain ⟨hquiet, hleft⟩ := leaveMatch_left hout
      have hcalled := hs.call hclient (hs.registered.leaveMatch hout) hquiet.enters
      refine ⟨hcalled.registered, fun other address hother => ?_⟩
      have hne : other ≠ client := by
        rintro rfl
        rw [hleft] at hother
        cases hother
      exact List.mem_filter.mpr ⟨hcalled.connected other address hother, decide_eq_true hne⟩
    · cases h

theorem attended_of_reachable (h : Lib.Reachable Session.step Session.initial s) : Attended s :=
  h.invariant (fun _ _ _ hs hst => hs.step hst) attended_initial

/-- Nobody in a match is missing where `send` looks. -/
theorem Attended.found (hs : Attended s) {address : Nat} {m : Match}
    (hm : s.plugin.Lives address m) {other : Int} (hmember : m.HasMember other) :
    other ∈ s.allClients :=
  hs.connected other address ((hs.registered.agree.client_iff other address m hm).mpr hmember)

/-- A message that is neither `:` nor the move of a spectator is handled well. -/
theorem Attended.handledWell (hs : Attended s) (hclient : client ∈ s.allClients) {message : Bytes}
    (hwords : message ≠ ascii ":")
    (hmove : ¬(s.plugin.Spectates client ∧ ∃ move, AsksFor message (.move move))) :
    HandledWell s client message := by
  have hquiet : ∀ random out, s.plugin.handleMessage client message random = some out →
      Quiet s.plugin client out := by
    intro random out hout
    obtain hquiet | ⟨hspectates, hasks, -⟩ := handleMessage_cases hs.registered hout
    · exact hquiet
    · exact absurd ⟨hspectates, hasks⟩ hmove
  refine ⟨words_ne_nil_iff.mpr hwords, fun _ _ hm _ hmember => hs.found hm hmember,
    fun random out hout => (hquiet random out hout).thrown, fun random out hout hrefused => ?_⟩
  have hsame : out.plugin = s.plugin := by
    obtain herror | ⟨hleave, hnone⟩ := hrefused
    · exact (hquiet random out hout).refused herror
    · rw [handleMessage_of_asksFor hleave] at hout
      unfold ProbabilityChess.handleRequest ProbabilityChess.leaveMatch at hout
      rw [hnone] at hout
      obtain rfl := Option.some.inj hout
      rfl
  unfold Session.step
  dsimp only
  rw [if_pos hclient, hout, Option.map_some, hsame]

/-- In every state a session can be in, a message of a client is handled well unless it is `:`, or
    the client is a spectator and asks for a move. -/
theorem handledWell_iff (h : Lib.Reachable Session.step Session.initial s)
    (hclient : client ∈ s.allClients) (message : Bytes) :
    HandledWell s client message ↔ message ≠ ascii ":" ∧
      ¬(s.plugin.Spectates client ∧ ∃ move, AsksFor message (.move move)) := by
  have hs := attended_of_reachable h
  constructor
  · intro hwell
    refine ⟨words_ne_nil_iff.mp hwell.indexed, ?_⟩
    rintro ⟨hspectates, move, hasks⟩
    obtain ⟨what, hthrows⟩ := makeMove_of_spectates hs.registered hspectates move []
    have hout := (handleMessage_of_asksFor hasks).trans hthrows
    exact nomatch hwell.thrown [] _ hout
  · rintro ⟨hwords, hmove⟩
    exact hs.handledWell hclient hwords hmove

/-- Somebody makes a match and somebody looks on. -/
def lookingOn : List SessionEvent :=
  [.connect 1, .connect 2, .message 1 (ascii ":Create duel 8 white public skip human") [],
    .message 2 (ascii ":Spectate duel") []]

/-- The host asks for a move before a guest has come. -/
theorem handledWell_iff_host : ∃ s, Lib.exec Session.step Session.initial lookingOn = some s ∧
    (HandledWell s 1 (ascii ":Move 60 40") ↔ ascii ":Move 60 40" ≠ ascii ":" ∧
      ¬(s.plugin.Spectates 1 ∧ ∃ move, AsksFor (ascii ":Move 60 40") (.move move))) := by
  have hsome : ((Lib.exec Session.step Session.initial lookingOn).filter
      fun s => 1 ∈ s.allClients).isSome = true := by decide
  obtain ⟨s, hs⟩ := Option.isSome_iff_exists.mp hsome
  obtain ⟨hexec, hclient⟩ := Option.filter_eq_some_iff.mp hs
  exact ⟨s, hexec, handledWell_iff ⟨_, hexec⟩ (of_decide_eq_true hclient) _⟩

/-- The colon alone has no words, and the spectator's move is answered by an exception. -/
theorem spectator_throws : ∃ s, Lib.exec Session.step Session.initial lookingOn = some s ∧
    1 ∈ s.allClients ∧ ¬HandledWell s 1 (ascii ":") ∧
      2 ∈ s.allClients ∧ ¬HandledWell s 2 (ascii ":Move 60 40") := by
  have hsome : ((Lib.exec Session.step Session.initial lookingOn).filter fun s =>
      1 ∈ s.allClients ∧ 2 ∈ s.allClients ∧
        ((s.plugin.handleMessage 2 (ascii ":Move 60 40") []).bind Handled.thrown).isSome).isSome =
      true := by decide
  obtain ⟨s, hs⟩ := Option.isSome_iff_exists.mp hsome
  obtain ⟨hexec, hchecks⟩ := Option.filter_eq_some_iff.mp hs
  obtain ⟨hhost, hspectator, hthrown⟩ := of_decide_eq_true hchecks
  refine ⟨s, hexec, hhost, ?_, hspectator, ?_⟩
  · intro hwell
    exact hwell.indexed rfl rfl
  · intro hwell
    obtain ⟨what, hwhat⟩ := Option.isSome_iff_exists.mp hthrown
    obtain ⟨out, hout, hwhat⟩ := Option.bind_eq_some_iff.mp hwhat
    exact nomatch (hwell.thrown [] out hout).symm.trans hwhat

end Sessions

end Algiz.ProbChess
