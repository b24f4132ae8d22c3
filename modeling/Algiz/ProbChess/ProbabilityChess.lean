/-
  `ProbabilityChess`: the matches by their names and by the clients in them.

  Both registries hold `std::shared_ptr`s, which are addresses here. A match lives as long as one
  of them has it. What `createMatch`, `joinMatch`, `leaveMatch` and `handleClose` do to the match
  itself are the events of `Match.step`, so every match here is a `Played` one
  (`Registered.played`). The two registries agree with the matches and with each other after every
  message (`Agree`).

  Of the answers to the client only the errors are kept. `connections` and `clients` say who is sent
  the broadcasts, and are left out with them, as is `hidden`.
-/
import Algiz.Lib.Map
import Algiz.Util
import Algiz.ProbChess.Game

namespace Algiz.ProbChess

/-- `ProbabilityChess` -/
structure ProbabilityChess where
  /-- the matches that have been made, by address -/
  objects : Lib.Map Nat Match
  /-- the address of the next one -/
  next : Nat
  matchesByID : Lib.Map Bytes Nat
  matchesByClient : Lib.Map Int Nat

/-- What a handler leaves: the plugin, the error the client is sent and what was thrown. -/
structure Handled where
  plugin : ProbabilityChess
  error : Option Bytes
  thrown : Option Thrown

/-- `matchesByClient.erase(player->clientID)`, if it is a human player -/
def erasePlayer (player : Option Player) (matchesByClient : Lib.Map Int Nat) : Lib.Map Int Nat :=
  match player with
  | some (.human client) => Lib.Map.erase matchesByClient client
  | _ => matchesByClient

namespace ProbabilityChess

/-- The plugin before the first message. -/
def initial : ProbabilityChess := ⟨fun _ => none, 0, fun _ => none, fun _ => none⟩

/-- What `Match::end` does to the registries. -/
def unregister (p : ProbabilityChess) (m : Match) : ProbabilityChess :=
  { p with
    matchesByID := Lib.Map.erase p.matchesByID m.matchID
    matchesByClient := m.spectators.foldl Lib.Map.erase
      (erasePlayer m.host (erasePlayer m.guest p.matchesByClient)) }

/-- A match after a call to one of its functions. If it has ended, `end` took it out. -/
def store (p : ProbabilityChess) (address : Nat) (m : Match) : ProbabilityChess :=
  let p := { p with objects := Lib.Map.set p.objects address m }
  if m.isOver then p.unregister m else p

/-- Nothing happens but that the client is sent an error. -/
def refuse (p : ProbabilityChess) (error : String) : Option Handled :=
  some ⟨p, some (ascii (":Error " ++ error)), none⟩

/-- Nothing is sent that says that something went wrong. -/
def done (p : ProbabilityChess) : Handled := ⟨p, none, none⟩

/-- `VALID_MATCH_CHARS` -/
def isMatchChar (b : UInt8) : Bool :=
  97 ≤ b && b ≤ 122 || 65 ≤ b && b ≤ 90 || 48 ≤ b && b ≤ 57 || b == 95

/-- `createMatch` -/
def createMatch (p : ProbabilityChess) (client : Int) (id : Bytes) (columnCount : Int)
    (color : Color) (noSkip : Bool) (type : Bytes) (random : List Nat) : Option Handled :=
  if !id.all isMatchChar then p.refuse "Invalid match ID."
  else if columnCount < 1 ∨ 8 < columnCount then p.refuse "Invalid column count."
  else if (p.matchesByClient client).isSome then p.refuse "Already in a match."
  else if (p.matchesByID id).isSome then p.refuse "A match with that ID already exists."
  else match matchType type with
    | none => p.refuse "Invalid match type."
    | some (kind, guest) =>
      let registered := { p with
        next := p.next + 1
        matchesByID := Lib.Map.emplace p.matchesByID id p.next
        matchesByClient := Lib.Map.emplace p.matchesByClient client p.next }
      ((Match.hosted kind id noSkip columnCount color guest client p.next).startIfReady random).map
        fun (m, _) => (registered.store p.next m).done

/-- `joinMatch` -/
def joinMatch (p : ProbabilityChess) (client : Int) (id : Bytes) (asSpectator : Bool)
    (random : List Nat) : Option Handled :=
  if (p.matchesByClient client).isSome then p.refuse "Already in a match."
  else match p.matchesByID id with
    | none => p.refuse "No match with that ID exists."
    | some address =>
      match p.objects address with
      | none => none
      | some m =>
        if !asSpectator && m.isFull then p.refuse "Match is full."
        else
          let joined := { p with
            matchesByClient := Lib.Map.emplace p.matchesByClient client address }
          if asSpectator then some (joined.store address (m.spectate client)).done
          else (m.join client random).map fun (m, _) => (joined.store address m).done

/-- `leaveMatch`. `handleClose` does the same to the registries. -/
def leaveMatch (p : ProbabilityChess) (client : Int) : Option Handled :=
  match p.matchesByClient client with
  | none => some p.done
  | some address =>
    match p.objects address with
    | none => none
    | some m =>
      let left := p.store address (m.disconnect client)
      some { left with
        matchesByClient := Lib.Map.erase left.matchesByClient client }.done

/-- `:Move`, once the message has been read. A `ChessError` is sent to the client, anything else
    leaves the handler. -/
def makeMove (p : ProbabilityChess) (client : Int) (move : Move) (random : List Nat) :
    Option Handled :=
  match p.matchesByClient client with
  | none => p.refuse "Not in a match."
  | some address =>
    match p.objects address with
    | none => none
    | some m => (m.requestMove client move random).map fun out =>
      let p := p.store address out.left
      match out.thrown with
      | some (.chessError what) => ⟨p, some (ascii ":Error " ++ what), none⟩
      | thrown => ⟨p, none, thrown⟩

end ProbabilityChess

/-! ## Messages -/

/-- What a message asks for. -/
inductive Request where
  | create (id : Bytes) (columnCount : Int) (color : Color) (noSkip : Bool) (type : Bytes)
  | join (id : Bytes)
  | spectate (id : Bytes)
  | createOrJoin (id : Bytes) (columnCount : Int) (color : Color) (noSkip : Bool) (type : Bytes)
  | move (move : Move)
  | getMatches
  | fen
  | leaveMatch

/-- `c - '0'`; a `char` is signed. -/
def charValue (c : UInt8) : Int := c.toInt8.toInt - 48

/-- The words behind `:Create` and `:CreateOrJoin`. -/
def parseOpening (make : Bytes → Int → Color → Bool → Bytes → Request) (words : List Bytes) :
    Option Request :=
  match words with
  | [id, [count], color, _, skip, type] =>
    if id.isEmpty then none
    else some (make id (charValue count) (if color = ascii "black" then .black else .white)
      (skip = ascii "noskip") type)
  | _ => none

/-- The word behind `:Join` and `:Spectate`. -/
def parseID (make : Bytes → Request) (words : List Bytes) : Option Request :=
  match words with
  | [id] => if id.isEmpty then none else some (make id)
  | _ => none

/-- A square: two of the characters `0` to `7`. -/
def parseSquare (word : Bytes) : Option Square :=
  match word with
  | [row, column] =>
    if 48 ≤ row ∧ row ≤ 55 ∧ 48 ≤ column ∧ column ≤ 55 then
      some ⟨charValue row, charValue column⟩
    else none
  | _ => none

/-- The words behind `:Move`. -/
def parseMove (words : List Bytes) : Option Request :=
  match words with
  | [source, destination] =>
    (parseSquare source).bind fun source => (parseSquare destination).map fun destination =>
      .move ⟨source, destination⟩
  | _ => none

/-- The verbs of `handleMessage` in its order, and how their words are read; `none` is answered
    with "Invalid message.". -/
def parseWords (verb : Bytes) (words : List Bytes) : Except String Request :=
  let invalid := fun request : Option Request => match request with
    | none => Except.error "Invalid message."
    | some request => Except.ok request
  if verb = ascii "Create" then invalid (parseOpening .create words)
  else if verb = ascii "Join" then invalid (parseID .join words)
  else if verb = ascii "Spectate" then invalid (parseID .spectate words)
  else if verb = ascii "CreateOrJoin" then invalid (parseOpening .createOrJoin words)
  else if verb = ascii "Move" then invalid (parseMove words)
  else if verb = ascii "GetMatches" then .ok .getMatches
  else if verb = ascii "FEN" then .ok .fen
  else if verb = ascii "LeaveMatch" then .ok .leaveMatch
  else .error "Unknown message type"

namespace ProbabilityChess

/-- What is done for a request. -/
def handleRequest (p : ProbabilityChess) (client : Int) (random : List Nat) :
    Request → Option Handled
  | .create id columnCount color noSkip type =>
    p.createMatch client id columnCount color noSkip type random
  | .join id => p.joinMatch client id false random
  | .spectate id => p.joinMatch client id true random
  | .createOrJoin id columnCount color noSkip type =>
    if (p.matchesByID id).isSome then p.joinMatch client id false random
    else p.createMatch client id columnCount color noSkip type random
  | .move move => p.makeMove client move random
  | .getMatches => some p.done
  | .fen => if (p.matchesByClient client).isNone then p.refuse "Not in a match." else some p.done
  | .leaveMatch => p.leaveMatch client

/-- `handleMessage`; `none` if it has not returned, or where it has no defined result: the message
    `:` has no words, and `words[0]` is read. -/
def handleMessage (p : ProbabilityChess) (client : Int) (message : Bytes) (random : List Nat) :
    Option Handled :=
  if message.head? ≠ some 58 then p.refuse "Invalid message."
  else match split (message.drop 1) (ascii " ") true with
    | [] => none
    | verb :: words =>
      match parseWords verb words with
      | .error what => p.refuse what
      | .ok request => p.handleRequest client random request

end ProbabilityChess

/-- What the plugin is called for: a message of a client, or a client whose connection is closed. -/
inductive PluginEvent where
  | message (client : Int) (message : Bytes) (random : List Nat)
  | close (client : Int)

/-- The plugin after one call. -/
def ProbabilityChess.step (p : ProbabilityChess) (event : PluginEvent) : Option ProbabilityChess :=
  match event with
  | .message client message random => (p.handleMessage client message random).map Handled.plugin
  | .close client => (p.leaveMatch client).map Handled.plugin

open ProbabilityChess

/-! ## The registries -/

section Erasing

variable {client : Int}

theorem erasePlayer_apply (player : Option Player) (matchesByClient : Lib.Map Int Nat) :
    erasePlayer player matchesByClient client =
      if player = some (.human client) then none else matchesByClient client := by
  unfold erasePlayer
  split
  · rename_i other
    split
    · rename_i heq
      obtain rfl := Player.human.inj (Option.some.inj heq)
      exact Lib.Map.erase_self ..
    · rename_i hne
      refine Lib.Map.erase_of_ne _ fun heq => hne ?_
      rw [heq]
  · rename_i hnot
    exact (if_neg (hnot client)).symm

theorem eraseAll_apply (spectators : List Int) (matchesByClient : Lib.Map Int Nat) :
    spectators.foldl Lib.Map.erase matchesByClient client =
      if client ∈ spectators then none else matchesByClient client := by
  induction spectators generalizing matchesByClient with
  | nil => rfl
  | cons spectator spectators ih =>
    rw [List.foldl_cons, ih]
    obtain rfl | hne := eq_or_ne client spectator
    · simp
    · simp [hne]

/-- `end` takes every client of the match out of the registry, and no other. -/
theorem unregister_client (p : ProbabilityChess) (m : Match) (address : Nat) :
    (p.unregister m).matchesByClient client = some address ↔
      p.matchesByClient client = some address ∧ ¬m.HasMember client := by
  unfold ProbabilityChess.unregister Match.HasMember
  dsimp only
  rw [eraseAll_apply, erasePlayer_apply, erasePlayer_apply]
  split
  · simp [*]
  · split
    · simp [*]
    · split <;> simp [*]

end Erasing

/-- What holds of the plugin between two messages. -/
structure Registered (p : ProbabilityChess) : Prop where
  /-- the clients in the registry are those of the matches that are registered -/
  client_iff : ∀ client address, p.matchesByClient client = some address ↔
    ∃ m id, p.objects address = some m ∧ p.matchesByID id = some address ∧ m.HasMember client
  /-- a match is registered under its name, goes on and has a player in it -/
  named : ∀ id address, p.matchesByID id = some address →
    ∃ m, p.objects address = some m ∧ m.matchID = id ∧ m.isOver = false ∧ m.isActive = true
  /-- no match has been made at an address to come -/
  fresh : ∀ address m, p.objects address = some m → address < p.next
  /-- every match is one that its clients have played -/
  played : ∀ address m, p.objects address = some m → Played m

section Updates

variable {p q : ProbabilityChess} {address : Nat} {m m' : Match}

/-- The match that a name leads to. -/
theorem Registered.at_name (hp : Registered p) {id : Bytes} (hid : p.matchesByID id = some address)
    (hm : p.objects address = some m) :
    m.matchID = id ∧ m.isOver = false ∧ m.isActive = true := by
  obtain ⟨other, hother, hnamed⟩ := hp.named id address hid
  rwa [Option.some.inj (hm.symm.trans hother)]

section Names

variable {names : Lib.Map Bytes Nat} {id : Bytes} {ended : Bool}

/-- An address that only one name may lead to is entered under it, or taken out once its match has
    ended. -/
theorem entered_self_iff (hold : ∀ name, names name = some address → name = id) (name : Bytes) :
    (if ended then Lib.Map.erase names id else Lib.Map.set names id address) name = some address ↔
      ended = false ∧ name = id := by
  obtain rfl | hne := eq_or_ne name id
  · cases ended <;> simp
  · have hnot : names name ≠ some address := fun hname => hne (hold name hname)
    cases ended with
    | true =>
      rw [if_pos rfl, Lib.Map.erase_of_ne _ hne]
      exact iff_of_false hnot fun h => Bool.noConfusion h.1
    | false =>
      rw [if_neg Bool.false_ne_true, Lib.Map.set_of_ne _ hne]
      exact iff_of_false hnot fun h => hne h.2

/-- Names that lead elsewhere do so as before. -/
theorem entered_other_iff (hfree : ∀ other, names id = some other → other = address) {other : Nat}
    (hother : other ≠ address) (name : Bytes) :
    (if ended then Lib.Map.erase names id else Lib.Map.set names id address) name = some other ↔
      names name = some other := by
  obtain rfl | hne := eq_or_ne name id
  · refine iff_of_false ?_ fun h => hother (hfree other h)
    cases ended <;> simp [Ne.symm hother]
  · cases ended with
    | true => rw [if_pos rfl, Lib.Map.erase_of_ne _ hne]
    | false => rw [if_neg Bool.false_ne_true, Lib.Map.set_of_ne _ hne]

end Names

/-- A match is replaced, or entered under its name. `clients` is the registry before `end`: the
    clients that lead to the match are its members, those that lead elsewhere do as before. -/
theorem Registered.update (hp : Registered p) (hplayed : Played m')
    (hactive : m'.isOver = false → m'.isActive = true)
    (hold : ∀ id, p.matchesByID id = some address → id = m'.matchID)
    (hfree : ∀ other, p.matchesByID m'.matchID = some other → other = address)
    (hobjects : q.objects = Lib.Map.set p.objects address m')
    (hnext : p.next ≤ q.next) (haddress : address < q.next)
    (hnames : q.matchesByID = if m'.isOver then Lib.Map.erase p.matchesByID m'.matchID
      else Lib.Map.set p.matchesByID m'.matchID address) {clients : Lib.Map Int Nat}
    (hmembers : ∀ client, clients client = some address ↔ m'.HasMember client)
    (helsewhere : ∀ client other, other ≠ address →
      (clients client = some other ↔ p.matchesByClient client = some other))
    (hclients : ∀ client other, q.matchesByClient client = some other ↔
      clients client = some other ∧ (m'.isOver = true → ¬m'.HasMember client)) :
    Registered q := by
  have hself : ∀ client, q.matchesByClient client = some address ↔
      m'.isOver = false ∧ m'.HasMember client := by
    intro client
    rw [hclients, hmembers]
    cases m'.isOver with
    | true => simp
    | false => simp
  have hothers : ∀ client other, other ≠ address →
      (q.matchesByClient client = some other ↔ p.matchesByClient client = some other) := by
    intro client other hne
    rw [hclients, ← helsewhere client other hne]
    refine and_iff_left_of_imp fun hother _ hmember => hne ?_
    exact Option.some.inj (hother.symm.trans ((hmembers client).mpr hmember))
  have hself' : q.objects address = some m' := by
    rw [hobjects]
    exact Lib.Map.set_self ..
  have hobject : ∀ other, other ≠ address → q.objects other = p.objects other := by
    intro other hne
    rw [hobjects]
    exact Lib.Map.set_of_ne _ hne _
  have hname : ∀ id, q.matchesByID id = some address ↔ m'.isOver = false ∧ id = m'.matchID := by
    intro id
    rw [hnames]
    exact entered_self_iff hold id
  have hname' : ∀ id other, other ≠ address →
      (q.matchesByID id = some other ↔ p.matchesByID id = some other) := by
    intro id other hne
    rw [hnames]
    exact entered_other_iff hfree hne id
  refine ⟨?_, ?_, ?_, ?_⟩
  · intro client other
    obtain rfl | hne := eq_or_ne other address
    · rw [hself]
      constructor
      · rintro ⟨hopen, hmember⟩
        exact ⟨m', m'.matchID, hself', (hname _).mpr ⟨hopen, rfl⟩, hmember⟩
      · rintro ⟨m, id, hm, hid, hmember⟩
        obtain rfl := Option.some.inj (hself'.symm.trans hm)
        exact ⟨((hname id).mp hid).1, hmember⟩
    · rw [hothers client other hne, hp.client_iff]
      simp only [hobject other hne, hname' _ other hne]
  · intro id other hid
    obtain rfl | hne := eq_or_ne other address
    · obtain ⟨hopen, rfl⟩ := (hname id).mp hid
      exact ⟨m', hself', rfl, hopen, hactive hopen⟩
    · rw [hobject other hne]
      exact hp.named id other ((hname' id other hne).mp hid)
  · intro other m hm
    obtain rfl | hne := eq_or_ne other address
    · exact haddress
    · rw [hobject other hne] at hm
      exact lt_of_lt_of_le (hp.fresh other m hm) hnext
  · intro other m hm
    obtain rfl | hne := eq_or_ne other address
    · obtain rfl := Option.some.inj (hself'.symm.trans hm)
      exact hplayed
    · rw [hobject other hne] at hm
      exact hp.played other m hm

theorem store_objects (p : ProbabilityChess) (address : Nat) (m : Match) :
    (p.store address m).objects = Lib.Map.set p.objects address m := by
  unfold ProbabilityChess.store
  split <;> rfl

theorem store_next (p : ProbabilityChess) (address : Nat) (m : Match) :
    (p.store address m).next = p.next := by
  unfold ProbabilityChess.store
  split <;> rfl

theorem store_names (p : ProbabilityChess) (address : Nat) (m : Match) :
    (p.store address m).matchesByID =
      if m.isOver then Lib.Map.erase p.matchesByID m.matchID else p.matchesByID := by
  unfold ProbabilityChess.store
  split <;> rfl

theorem store_clients (p : ProbabilityChess) (address : Nat) (m : Match) (client : Int)
    (other : Nat) : (p.store address m).matchesByClient client = some other ↔
      p.matchesByClient client = some other ∧ (m.isOver = true → ¬m.HasMember client) := by
  unfold ProbabilityChess.store
  dsimp only
  split
  · rename_i hover
    rw [unregister_client]
    simp [hover]
  · rename_i hover
    simp [hover]

/-- Who leads to a registered match. -/
theorem Registered.members (hp : Registered p) {id : Bytes} (hid : p.matchesByID id = some address)
    (hm : p.objects address = some m) (client : Int) :
    p.matchesByClient client = some address ↔ m.HasMember client := by
  rw [hp.client_iff]
  constructor
  · rintro ⟨m', id', hm', -, hmember⟩
    obtain rfl := Option.some.inj (hm.symm.trans hm')
    exact hmember
  · exact fun hmember => ⟨m, id, hm, hid, hmember⟩

/-- After an event in a registered match. -/
theorem Registered.event (hp : Registered p) {id : Bytes} (hid : p.matchesByID id = some address)
    (hm : p.objects address = some m) {event : MatchEvent} (hstep : m.step event = some m')
    (hobjects : q.objects = Lib.Map.set p.objects address m') (hnext : q.next = p.next)
    (hnames : q.matchesByID =
      if m'.isOver then Lib.Map.erase p.matchesByID m'.matchID else p.matchesByID)
    {clients : Lib.Map Int Nat}
    (hmembers : ∀ client, clients client = some address ↔ m'.HasMember client)
    (helsewhere : ∀ client other, other ≠ address →
      (clients client = some other ↔ p.matchesByClient client = some other))
    (hclients : ∀ client other, q.matchesByClient client = some other ↔
      clients client = some other ∧ (m'.isOver = true → ¬m'.HasMember client)) :
    Registered q := by
  have hsame := ((sameMatch_kept m).step (SameMatch.refl m) hstep).matchID
  obtain ⟨rfl, -, hactive⟩ := hp.at_name hid hm
  rw [← hsame] at hid
  refine hp.update ((hp.played address m hm).step hstep)
    (Match.step_active (fun _ => hactive) hstep) ?_ ?_
    hobjects hnext.ge ?_ ?_ hmembers helsewhere hclients
  · intro id' hid'
    rw [hsame]
    exact (hp.at_name hid' hm).1.symm
  · intro other hother
    exact Option.some.inj (hother.symm.trans hid)
  · rw [hnext]
    exact hp.fresh address m hm
  · rw [hnames, Lib.Map.set_of_eq hid]

end Updates

/-! ## The requests -/

section Requests

variable {p : ProbabilityChess} {client : Int} {random : List Nat} {out : Handled}

/-- A request that is refused changes nothing. -/
theorem Registered.refuse (hp : Registered p) {error : String} (h : p.refuse error = some out) :
    Registered out.plugin := by
  obtain rfl := Option.some.inj h
  exact hp

/-- The match at a registered address. -/
theorem Registered.stepped (hp : Registered p) {id : Bytes} {address : Nat} {m : Match}
    (hid : p.matchesByID id = some address) (hm : p.objects address = some m) :
    m.isOver = false := (hp.at_name hid hm).2.1

/-- A client that comes into a match, as a player or as a spectator. -/
theorem Registered.enter (hp : Registered p) {id : Bytes} {address : Nat} {m m' : Match}
    {event : MatchEvent} (hclient : p.matchesByClient client = none)
    (hid : p.matchesByID id = some address) (hm : p.objects address = some m)
    (hstep : m.step event = some m')
    (hmember : ∀ other, m'.HasMember other ↔ m.HasMember other ∨ other = client) :
    Registered (({ p with matchesByClient := Lib.Map.emplace p.matchesByClient client address } :
      ProbabilityChess).store address m') := by
  rw [Lib.Map.emplace_of_none hclient]
  refine hp.event hid hm hstep (store_objects ..) (store_next ..) (store_names ..) ?_ ?_
    (fun other address' => store_clients _ address m' other address')
  · intro other
    rw [Lib.Map.set_eq_some hclient, hp.members hid hm, hmember]
    simp
  · intro other address' hne
    rw [Lib.Map.set_eq_some hclient]
    exact or_iff_left fun h => hne h.2

theorem Registered.joinMatch (hp : Registered p) {id : Bytes} {asSpectator : Bool}
    (h : p.joinMatch client id asSpectator random = some out) : Registered out.plugin := by
  unfold ProbabilityChess.joinMatch at h
  split at h
  · exact hp.refuse h
  rename_i hclient
  have hclient : p.matchesByClient client = none := by simpa using hclient
  split at h
  · exact hp.refuse h
  rename_i address hid
  split at h
  · exact nomatch h
  rename_i m hm
  have hopen := hp.stepped hid hm
  split at h
  · exact hp.refuse h
  rename_i hfull
  cases asSpectator with
  | true =>
    obtain rfl := Option.some.inj h
    exact hp.enter hclient hid hm (Match.step_spectate hopen client) fun other => spectate_hasMember
  | false =>
    obtain ⟨⟨m', random'⟩, hjoin, rfl⟩ := Option.map_eq_some_iff.mp h
    have hfull : m.isFull = false := by simpa using hfull
    have hstep := Match.step_join hopen hfull hjoin
    exact hp.enter hclient hid hm hstep fun other => join_hasMember hfull hjoin

/-- The address a client leads to is that of a registered match. -/
theorem Registered.address (hp : Registered p) {address : Nat}
    (h : p.matchesByClient client = some address) :
    ∃ m id, p.objects address = some m ∧ p.matchesByID id = some address := by
  obtain ⟨m, id, hm, hid, -⟩ := (hp.client_iff client address).mp h
  exact ⟨m, id, hm, hid⟩

theorem Registered.leaveMatch (hp : Registered p) (h : p.leaveMatch client = some out) :
    Registered out.plugin := by
  unfold ProbabilityChess.leaveMatch at h
  split at h
  · obtain rfl := Option.some.inj h
    exact hp
  rename_i address hclient
  obtain ⟨m, id, hm, hid⟩ := hp.address hclient
  rw [hm] at h
  obtain rfl := Option.some.inj h
  have hstep := Match.step_leave (hp.stepped hid hm) client
  have hmembers : ∀ other, Lib.Map.erase p.matchesByClient client other = some address ↔
      (m.disconnect client).HasMember other := by
    intro other
    rw [Lib.Map.erase_eq_some, hp.members hid hm, disconnect_hasMember]
  refine hp.event hid hm hstep (store_objects ..) (store_next ..) (store_names ..) hmembers ?_ ?_
  · intro other address' hne
    rw [Lib.Map.erase_eq_some]
    refine and_iff_left_of_imp fun hother heq => hne ?_
    rw [heq, hclient] at hother
    exact (Option.some.inj hother).symm
  · intro other address'
    unfold ProbabilityChess.done
    dsimp only
    rw [Lib.Map.erase_eq_some, store_clients, Lib.Map.erase_eq_some]
    exact and_right_comm

theorem Registered.makeMove (hp : Registered p) {move : Move}
    (h : p.makeMove client move random = some out) : Registered out.plugin := by
  unfold ProbabilityChess.makeMove at h
  split at h
  · exact hp.refuse h
  rename_i address hclient
  obtain ⟨m, id, hm, hid⟩ := hp.address hclient
  rw [hm] at h
  obtain ⟨moved, hmoved, rfl⟩ := Option.map_eq_some_iff.mp h
  have hstep := Match.step_move (hp.stepped hid hm) hmoved
  have hstored : Registered (p.store address moved.left) := by
    refine hp.event hid hm hstep (store_objects ..) (store_next ..) (store_names ..)
      (fun other => ?_) (fun other address' hne => Iff.rfl)
      (fun other address' => store_clients _ address moved.left other address')
    rw [(requestMove_same hmoved).2.hasMember, hp.members hid hm]
  dsimp only
  split <;> exact hstored

theorem Registered.createMatch (hp : Registered p) {id : Bytes} {columnCount : Int} {color : Color}
    {noSkip : Bool} {type : Bytes}
    (h : p.createMatch client id columnCount color noSkip type random = some out) :
    Registered out.plugin := by
  unfold ProbabilityChess.createMatch at h
  split at h
  · exact hp.refuse h
  split at h
  · exact hp.refuse h
  rename_i hcount
  split at h
  · exact hp.refuse h
  rename_i hclient
  split at h
  · exact hp.refuse h
  rename_i hid
  split at h
  · exact hp.refuse h
  rename_i kind guest htype
  have hclient : p.matchesByClient client = none := by simpa using hclient
  have hid : p.matchesByID id = none := by simpa using hid
  obtain ⟨⟨m, random'⟩, hstart, rfl⟩ := Option.map_eq_some_iff.mp h
  let o : Opening := ⟨id, columnCount, color, noSkip, kind, guest, by omega, type, htype⟩
  have hcreate : o.create client p.next random = some (m, random') := hstart
  have hcreated : Created m := ⟨o, client, p.next, random, random', hcreate⟩
  obtain ⟨hsame, hparticipants⟩ := startIfReady_same hcreate
  have hmatchID : m.matchID = id := hsame.matchID
  have hmember : ∀ other, m.HasMember other ↔ other = client := by
    intro other
    rw [hparticipants.hasMember]
    exact hosted_hasMember o p.next
  -- nothing leads to the new address
  have hnew : p.objects p.next = none := by
    cases hold : p.objects p.next with
    | none => rfl
    | some old => exact absurd (hp.fresh p.next old hold) (lt_irrefl _)
  have hunnamed : ∀ name, p.matchesByID name ≠ some p.next := by
    intro name hname
    obtain ⟨old, hold, -⟩ := hp.named name p.next hname
    rw [hnew] at hold
    cases hold
  have hunreached : ∀ other, p.matchesByClient other ≠ some p.next := by
    intro other hother
    obtain ⟨old, name, hold, -⟩ := hp.address hother
    rw [hnew] at hold
    cases hold
  have hmembers : ∀ other, Lib.Map.emplace p.matchesByClient client p.next other = some p.next ↔
      m.HasMember other := by
    intro other
    rw [Lib.Map.emplace_of_none hclient, Lib.Map.set_eq_some hclient, hmember]
    simp [hunreached other]
  show Registered (ProbabilityChess.store ⟨p.objects, p.next + 1, _, _⟩ p.next m)
  have hnext : (ProbabilityChess.store ⟨p.objects, p.next + 1,
      Lib.Map.emplace p.matchesByID id p.next,
      Lib.Map.emplace p.matchesByClient client p.next⟩ p.next m).next = p.next + 1 :=
    store_next ..
  refine hp.update hcreated.played (fun _ => Opening.create_active hcreate)
    (fun name hname => absurd hname (hunnamed name)) ?_ (store_objects ..) (by omega) (by omega) ?_
    hmembers ?_ (fun other address => store_clients _ p.next m other address)
  · intro other hother
    rw [hmatchID, hid] at hother
    cases hother
  · rw [store_names, Lib.Map.emplace_of_none hid, hmatchID, Lib.Map.erase_set]
  · intro other address hne
    rw [Lib.Map.emplace_of_none hclient, Lib.Map.set_eq_some hclient]
    exact or_iff_left fun h => hne h.2

theorem Registered.handleRequest (hp : Registered p) {request : Request}
    (h : p.handleRequest client random request = some out) : Registered out.plugin := by
  cases request with
  | create id columnCount color noSkip type => exact hp.createMatch h
  | join id => exact hp.joinMatch h
  | spectate id => exact hp.joinMatch h
  | createOrJoin id columnCount color noSkip type =>
    unfold ProbabilityChess.handleRequest at h
    dsimp only at h
    split at h
    · exact hp.joinMatch h
    · exact hp.createMatch h
  | move move => exact hp.makeMove h
  | getMatches =>
    obtain rfl := Option.some.inj h
    exact hp
  | fen =>
    unfold ProbabilityChess.handleRequest at h
    dsimp only at h
    split at h
    · exact hp.refuse h
    · obtain rfl := Option.some.inj h
      exact hp
  | leaveMatch => exact hp.leaveMatch h

theorem Registered.handleMessage (hp : Registered p) {message : Bytes}
    (h : p.handleMessage client message random = some out) : Registered out.plugin := by
  unfold ProbabilityChess.handleMessage at h
  split at h
  · exact hp.refuse h
  split at h
  · exact nomatch h
  split at h
  · exact hp.refuse h
  · exact hp.handleRequest h

/-- One call keeps the registries right, whoever it is for. -/
theorem Registered.step (hp : Registered p) {event : PluginEvent} {q : ProbabilityChess}
    (h : p.step event = some q) : Registered q := by
  cases event with
  | message client message random =>
    obtain ⟨out, hout, rfl⟩ := Option.map_eq_some_iff.mp h
    exact hp.handleMessage hout
  | close client =>
    obtain ⟨out, hout, rfl⟩ := Option.map_eq_some_iff.mp h
    exact hp.leaveMatch hout

end Requests

/-! ## Every state of the plugin -/

section Reachable

variable {p : ProbabilityChess}

theorem registered_initial : Registered initial where
  client_iff _ _ := iff_of_false (fun h => nomatch h) fun ⟨_, _, h, _⟩ => nomatch h
  named _ _ h := nomatch h
  fresh _ _ h := nomatch h
  played _ _ h := nomatch h

theorem registered_of_reachable (h : Lib.Reachable ProbabilityChess.step initial p) :
    Registered p :=
  h.invariant (fun _ _ _ hs hst => hs.step hst) registered_initial

/-- A match that a registry has a pointer to. Any other has been destroyed. -/
def ProbabilityChess.Lives (p : ProbabilityChess) (address : Nat) (m : Match) : Prop :=
  p.objects address = some m ∧
    ((∃ id, p.matchesByID id = some address) ∨ ∃ client, p.matchesByClient client = some address)

/-- The registries and the matches agree. -/
structure Agree (p : ProbabilityChess) : Prop where
  /-- a client leads to a match exactly if it is its human host, its human guest or a spectator -/
  client_iff : ∀ client address m, p.Lives address m →
    (p.matchesByClient client = some address ↔ m.HasMember client)
  /-- a match that a client leads to is stored under its name -/
  stored : ∀ client address, p.matchesByClient client = some address →
    ∃ m, p.objects address = some m ∧ p.matchesByID m.matchID = some address
  /-- a match that is stored is not over and is active -/
  active : ∀ id address, p.matchesByID id = some address →
    ∃ m, p.objects address = some m ∧ m.isOver = false ∧ m.isActive = true

theorem Registered.agree (hp : Registered p) : Agree p where
  client_iff client address m hm := by
    obtain ⟨hobject, ⟨id, hid⟩ | ⟨other, hother⟩⟩ := hm
    · exact hp.members hid hobject client
    · obtain ⟨m', id, -, hid⟩ := hp.address hother
      exact hp.members hid hobject client
  stored client address hclient := by
    obtain ⟨m, id, hm, hid⟩ := hp.address hclient
    obtain ⟨rfl, -⟩ := hp.at_name hid hm
    exact ⟨m, hm, hid⟩
  active id address hid := by
    obtain ⟨m, hm, -, hopen, hactive⟩ := hp.named id address hid
    exact ⟨m, hm, hopen, hactive⟩

/-- Whatever the clients send and whenever they leave, the registries and the matches agree. -/
theorem agree_of_reachable (h : Lib.Reachable ProbabilityChess.step initial p) : Agree p :=
  (registered_of_reachable h).agree

/-- One client makes a match, another joins, a third looks on and the first leaves. -/
theorem agree_of_reachable_fourEvents : ∃ p, Lib.exec ProbabilityChess.step initial
    [.message 1 (ascii ":Create duel 8 white public skip human") [],
      .message 2 (ascii ":Join duel") [0, 0, 0, 1, 0, 2, 0, 3, 0, 4, 0, 5, 1, 5, 2, 5],
      .message 3 (ascii ":Spectate duel") [], .close 1] = some p ∧ Agree p := by
  have hsome : (Lib.exec ProbabilityChess.step initial
      [.message 1 (ascii ":Create duel 8 white public skip human") [],
        .message 2 (ascii ":Join duel") [0, 0, 0, 1, 0, 2, 0, 3, 0, 4, 0, 5, 1, 5, 2, 5],
        .message 3 (ascii ":Spectate duel") [], .close 1]).isSome = true := by decide
  obtain ⟨p, hp⟩ := Option.isSome_iff_exists.mp hsome
  exact ⟨p, hp, agree_of_reachable ⟨_, hp⟩⟩

/-- Every match of the plugin is one that its clients have played. -/
theorem played_of_reachable (h : Lib.Reachable ProbabilityChess.step initial p) {address : Nat}
    {m : Match} (hm : p.objects address = some m) : Played m :=
  (registered_of_reachable h).played address m hm

end Reachable

end Algiz.ProbChess
