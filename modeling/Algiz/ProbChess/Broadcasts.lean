/-
  What everybody is told about the matches.

  `Lobby` is the plugin with what makes no difference to a match: which matches are hidden, and what
  has been broadcast. `createMatch` and `joinMatch` broadcast what `isReady` says and `end` that the
  match is gone, but `disconnect` says "open" of every match that goes on. So whoever has heard all
  broadcasts knows what `GetMatches` would answer as long as nobody leaves a match that is ready
  but its players (`told_iff`).
-/
import Algiz.Lib.Follow
import Algiz.ProbChess.Messages
import Algiz.ProbChess.Rerolls

namespace Algiz.ProbChess

open Match Board ProbabilityChess

/-- A message to every client. -/
inductive Broadcast where
  /-- `:Match <id> closed`, or `:Match <id> open` -/
  | status (matchID : Bytes) (closed : Bool)
  /-- `:RemoveMatch <id>` -/
  | removeMatch (matchID : Bytes)

/-- What a client makes of it: the match is listed as closed or as open, or it is not listed. -/
def Broadcast.word : Broadcast → Bytes × Option Bool
  | .status matchID closed => (matchID, some closed)
  | .removeMatch matchID => (matchID, none)

/-- The plugin, what is hidden, and what was broadcast. -/
structure Lobby where
  plugin : ProbabilityChess
  /-- `hidden` of the match at an address -/
  hidden : Nat → Bool
  sent : List Broadcast

/-- What a handler leaves, and what it broadcasts. -/
structure Announced where
  handled : Handled
  hidden : Nat → Bool
  sent : List Broadcast

/-! ## The handlers -/

namespace Match

/-- `":Match " + matchID + " " + (isReady()? "closed" : "open")` -/
def status (m : Match) : Broadcast := .status m.matchID m.isReady

/-- What `end` broadcasts, if it was called in between. -/
def ending (m m' : Match) : List Broadcast :=
  if !m.isOver && m'.isOver then [.removeMatch m.matchID] else []

/-- What `disconnect` broadcasts. -/
def leaving (m : Match) (client : Int) : List Broadcast :=
  if !(m.forget client).isActive then [.removeMatch m.matchID] else [.status m.matchID false]

end Match

/-- `if (!hidden)` in front of a broadcast -/
def unlessHidden (hidden : Bool) (sent : List Broadcast) : List Broadcast :=
  if hidden then [] else sent

namespace Lobby

/-- The plugin before the first message. -/
def initial : Lobby := ⟨ProbabilityChess.initial, fun _ => false, []⟩

/-- Nothing is broadcast. -/
def quietly (l : Lobby) (handled : Handled) : Announced := ⟨handled, l.hidden, []⟩

/-- The lobby after a call. -/
def after (l : Lobby) (a : Announced) : Lobby := ⟨a.handled.plugin, a.hidden, l.sent ++ a.sent⟩

/-- `createMatch` -/
def createMatch (l : Lobby) (client : Int) (id : Bytes) (columnCount : Int) (color : Color)
    (hidden : Bool) (noSkip : Bool) (type : Bytes) (random : List Nat) : Option Announced :=
  let p := l.plugin
  if !id.all isMatchChar then (p.refuse "Invalid match ID.").map l.quietly
  else if columnCount < 1 ∨ 8 < columnCount then
    (p.refuse "Invalid column count.").map l.quietly
  else if (p.matchesByClient client).isSome then (p.refuse "Already in a match.").map l.quietly
  else if (p.matchesByID id).isSome then
    (p.refuse "A match with that ID already exists.").map l.quietly
  else match matchType type with
    | none => (p.refuse "Invalid match type.").map l.quietly
    | some (kind, guest) =>
      let registered := { p with
        next := p.next + 1
        matchesByID := Lib.Map.emplace p.matchesByID id p.next
        matchesByClient := Lib.Map.emplace p.matchesByClient client p.next }
      let hosted := Match.hosted kind id noSkip columnCount color guest client p.next
      (hosted.startIfReady random).map fun (m, _) =>
        { handled := (registered.store p.next m).done
          hidden := Function.update l.hidden p.next hidden
          sent := unlessHidden hidden (hosted.status ::
            if hosted.isReady then hosted.ending m ++ [m.status] else []) }

/-- `joinMatch` -/
def joinMatch (l : Lobby) (client : Int) (id : Bytes) (asSpectator : Bool) (random : List Nat) :
    Option Announced :=
  let p := l.plugin
  if (p.matchesByClient client).isSome then (p.refuse "Already in a match.").map l.quietly
  else match p.matchesByID id with
    | none => (p.refuse "No match with that ID exists.").map l.quietly
    | some address =>
      match p.objects address with
      | none => none
      | some m =>
        if !asSpectator && m.isFull then (p.refuse "Match is full.").map l.quietly
        else
          let joined := { p with
            matchesByClient := Lib.Map.emplace p.matchesByClient client address }
          if asSpectator then some (l.quietly (joined.store address (m.spectate client)).done)
          else (m.join client random).map fun (m', _) =>
            { handled := (joined.store address m').done
              hidden := l.hidden
              sent := unlessHidden (l.hidden address) (m.ending m' ++ [m'.status]) }

/-- `leaveMatch`. `handleClose` does the same. -/
def leaveMatch (l : Lobby) (client : Int) : Option Announced :=
  let p := l.plugin
  match p.matchesByClient client with
  | none => some (l.quietly p.done)
  | some address =>
    match p.objects address with
    | none => none
    | some m =>
      let left := p.store address (m.disconnect client)
      some
        { handled := { left with
            matchesByClient := Lib.Map.erase left.matchesByClient client }.done
          hidden := l.hidden
          sent := unlessHidden (l.hidden address) (m.leaving client) }

/-- `:Move`, once the message has been read. -/
def makeMove (l : Lobby) (client : Int) (move : Move) (random : List Nat) : Option Announced :=
  let p := l.plugin
  match p.matchesByClient client with
  | none => (p.refuse "Not in a match.").map l.quietly
  | some address =>
    match p.objects address with
    | none => none
    | some m => (m.requestMove client move random).map fun out =>
      let p := p.store address out.left
      { handled := match out.thrown with
          | some (.chessError what) => ⟨p, some (ascii ":Error " ++ what), none⟩
          | thrown => ⟨p, none, thrown⟩
        hidden := l.hidden
        sent := unlessHidden (l.hidden address) (m.ending out.left) }

/-- What is done for a request; `hidden` is whether a match that it creates is. -/
def handleRequest (l : Lobby) (client : Int) (hidden : Bool) (random : List Nat) :
    Request → Option Announced
  | .create id columnCount color noSkip type =>
    l.createMatch client id columnCount color hidden noSkip type random
  | .join id => l.joinMatch client id false random
  | .spectate id => l.joinMatch client id true random
  | .createOrJoin id columnCount color noSkip type =>
    if (l.plugin.matchesByID id).isSome then l.joinMatch client id false random
    else l.createMatch client id columnCount color hidden noSkip type random
  | .move move => l.makeMove client move random
  | .getMatches => some (l.quietly l.plugin.done)
  | .fen =>
    (if (l.plugin.matchesByClient client).isNone then l.plugin.refuse "Not in a match."
      else some l.plugin.done).map l.quietly
  | .leaveMatch => l.leaveMatch client

/-- `handleMessage`; the fourth word behind the verb says whether a match is hidden. -/
def handleMessage (l : Lobby) (client : Int) (message : Bytes) (random : List Nat) :
    Option Announced :=
  if message.head? ≠ some 58 then (l.plugin.refuse "Invalid message.").map l.quietly
  else match split (message.drop 1) (ascii " ") true with
    | [] => none
    | verb :: words =>
      match parseWords verb words with
      | .error what => (l.plugin.refuse what).map l.quietly
      | .ok request => l.handleRequest client (words[3]? = some (ascii "hidden")) random request

/-- The lobby after one call. -/
def step (l : Lobby) : PluginEvent → Option Lobby
  | .message client message random => (l.handleMessage client message random).map l.after
  | .close client => (l.leaveMatch client).map l.after

/-! ## Without the broadcasts -/

section Forgetting

variable {l : Lobby} {client : Int} {random : List Nat}

theorem createMatch_handled (id : Bytes) (columnCount : Int) (color : Color) (hidden noSkip : Bool)
    (type : Bytes) :
    (l.createMatch client id columnCount color hidden noSkip type random).map Announced.handled =
      l.plugin.createMatch client id columnCount color noSkip type random := by
  unfold Lobby.createMatch ProbabilityChess.createMatch
  dsimp only
  split_ifs
  · rfl
  · rfl
  · rfl
  · rfl
  · cases matchType type with
    | none => rfl
    | some match' =>
      dsimp only
      rw [Option.map_map]
      rfl

theorem joinMatch_handled (id : Bytes) (asSpectator : Bool) :
    (l.joinMatch client id asSpectator random).map Announced.handled =
      l.plugin.joinMatch client id asSpectator random := by
  unfold Lobby.joinMatch ProbabilityChess.joinMatch
  dsimp only
  split
  · rfl
  · cases l.plugin.matchesByID id with
    | none => rfl
    | some address =>
      dsimp only
      cases l.plugin.objects address with
      | none => rfl
      | some m =>
        dsimp only
        split
        · rfl
        · split
          · rfl
          · rw [Option.map_map]
            rfl

theorem leaveMatch_handled :
    (l.leaveMatch client).map Announced.handled = l.plugin.leaveMatch client := by
  unfold Lobby.leaveMatch ProbabilityChess.leaveMatch
  dsimp only
  cases l.plugin.matchesByClient client with
  | none => rfl
  | some address =>
    dsimp only
    cases l.plugin.objects address with
    | none => rfl
    | some m => rfl

theorem makeMove_handled (move : Move) :
    (l.makeMove client move random).map Announced.handled =
      l.plugin.makeMove client move random := by
  unfold Lobby.makeMove ProbabilityChess.makeMove
  dsimp only
  cases l.plugin.matchesByClient client with
  | none => rfl
  | some address =>
    dsimp only
    cases l.plugin.objects address with
    | none => rfl
    | some m =>
      dsimp only
      rw [Option.map_map]
      rfl

theorem handleRequest_handled (hidden : Bool) (request : Request) :
    (l.handleRequest client hidden random request).map Announced.handled =
      l.plugin.handleRequest client random request := by
  cases request with
  | create id columnCount color noSkip type =>
    exact createMatch_handled id columnCount color hidden noSkip type
  | join id => exact joinMatch_handled id false
  | spectate id => exact joinMatch_handled id true
  | createOrJoin id columnCount color noSkip type =>
    unfold Lobby.handleRequest ProbabilityChess.handleRequest
    dsimp only
    split
    · exact joinMatch_handled id false
    · exact createMatch_handled id columnCount color hidden noSkip type
  | move move => exact makeMove_handled move
  | getMatches => rfl
  | fen =>
    unfold Lobby.handleRequest ProbabilityChess.handleRequest
    dsimp only
    split <;> rfl
  | leaveMatch => exact leaveMatch_handled

/-- The broadcasts make no difference to the plugin. -/
theorem step_plugin (event : PluginEvent) : (l.step event).map plugin = l.plugin.step event := by
  have hafter : ∀ x : Option Announced, (x.map l.after).map plugin =
      (x.map Announced.handled).map Handled.plugin := by
    intro x
    rw [Option.map_map, Option.map_map]
    rfl
  cases event with
  | message client message random =>
    unfold Lobby.step ProbabilityChess.step
    dsimp only
    rw [hafter]
    congr 1
    unfold Lobby.handleMessage ProbabilityChess.handleMessage
    split
    · rfl
    · cases split (message.drop 1) (ascii " ") true with
      | nil => rfl
      | cons verb words =>
        dsimp only
        cases parseWords verb words with
        | error what => rfl
        | ok request => exact handleRequest_handled _ request
  | close client =>
    unfold Lobby.step ProbabilityChess.step
    dsimp only
    rw [hafter, leaveMatch_handled]

end Forgetting

end Lobby

/-! ## What `GetMatches` would answer -/

/-- The matches that `GetMatches` lists, and which of them are closed. -/
def ProbabilityChess.listing (p : ProbabilityChess) (hidden : Nat → Bool) : Lib.Map Bytes Bool :=
  fun id => (p.matchesByID id).bind fun address =>
    if hidden address then none else (p.objects address).map Match.isReady

/-- Who has followed the broadcasts knows what `GetMatches` would answer: of every match that is
    listed, the last broadcast was `closed` if and only if it is ready, and of any other that it is
    gone, if there was one. -/
def Told (l : Lobby) : Prop :=
  Lib.follow (l.sent.map Broadcast.word) = l.plugin.listing l.hidden

/-- The client leaves its match, or its connection is closed. -/
def Leaves (client : Int) : PluginEvent → Prop
  | .message sender message _ => sender = client ∧ AsksFor message .leaveMatch
  | .close sender => sender = client

/-- A client that leaves a match is one of its players, or the match is not ready, or it is
    hidden. -/
def LeavesWell (l : Lobby) (event : PluginEvent) : Prop :=
  ∀ client address m, Leaves client event → l.plugin.matchesByClient client = some address →
    l.plugin.objects address = some m → l.hidden address = false →
    m.hasClient client = true ∨ m.isReady = false

/-! ## One match changes -/

/-- A call changes one match, and broadcasts of this match only. -/
structure Changes (l : Lobby) (a : Announced) (address : Nat) (id : Bytes) (m : Match) :
    Prop where
  objects : a.handled.plugin.objects = Lib.Map.set l.plugin.objects address m
  names : a.handled.plugin.matchesByID =
    if m.isOver then Lib.Map.erase l.plugin.matchesByID id
    else Lib.Map.set l.plugin.matchesByID id address
  /-- no other name leads to the match -/
  named : ∀ id', l.plugin.matchesByID id' = some address → id' = id
  hidden : ∀ other, other ≠ address → a.hidden other = l.hidden other
  sent : ∀ b ∈ a.sent, b.word.1 = id

section Changes

variable {l : Lobby} {a : Announced} {address : Nat} {id : Bytes} {m m' : Match}

/-- What is listed of the match then. -/
theorem Changes.listing_self (h : Changes l a address id m) :
    a.handled.plugin.listing a.hidden id =
      if m.isOver || a.hidden address then none else some m.isReady := by
  unfold ProbabilityChess.listing
  rw [h.names, h.objects]
  cases m.isOver with
  | true => simp
  | false => simp

theorem Changes.listing_of_ne (h : Changes l a address id m) {id' : Bytes} (hne : id' ≠ id) :
    a.handled.plugin.listing a.hidden id' = l.plugin.listing l.hidden id' := by
  have hname : a.handled.plugin.matchesByID id' = l.plugin.matchesByID id' := by
    rw [h.names]
    split
    · exact Lib.Map.erase_of_ne _ hne
    · exact Lib.Map.set_of_ne _ hne _
  unfold ProbabilityChess.listing
  rw [hname]
  cases hold : l.plugin.matchesByID id' with
  | none => rfl
  | some other =>
    have hother : other ≠ address := by
      rintro rfl
      exact hne (h.named id' hold)
    rw [Option.bind_some, Option.bind_some, h.hidden other hother, h.objects,
      Lib.Map.set_of_ne _ hother]

/-- The last broadcast of the call, or what was listed before it, has to say what is listed
    then. -/
theorem Changes.told_after_iff (h : Changes l a address id m) (htold : Told l) :
    Told (l.after a) ↔
      (a.sent.getLast?.elim (l.plugin.listing l.hidden id) fun b => b.word.2) =
        if m.isOver || a.hidden address then none else some m.isReady := by
  have hmore : ∀ word ∈ a.sent.map Broadcast.word, word.1 = id := by
    intro word hword
    obtain ⟨b, hb, rfl⟩ := List.mem_map.mp hword
    exact h.sent b hb
  unfold Told Lobby.after
  dsimp only
  rw [List.map_append, Lib.follow_append_iff htold hmore fun id' hne => h.listing_of_ne hne,
    h.listing_self, List.getLast?_map]
  cases a.sent.getLast? with
  | none => rfl
  | some b => rfl

/-- What is listed of a registered match. -/
theorem listing_of_registered {p : ProbabilityChess} (hidden : Nat → Bool)
    (hid : p.matchesByID id = some address) (hm : p.objects address = some m) :
    p.listing hidden id = if hidden address then none else some m.isReady := by
  unfold ProbabilityChess.listing
  rw [hid, Option.bind_some, hm, Option.map_some]

/-- An event in a registered match changes this match. -/
theorem changes_of_event (hp : Registered l.plugin) (hid : l.plugin.matchesByID id = some address)
    (hm : l.plugin.objects address = some m) {event : MatchEvent} (hstep : m.step event = some m')
    (hobjects : a.handled.plugin.objects = Lib.Map.set l.plugin.objects address m')
    (hnames : a.handled.plugin.matchesByID =
      if m'.isOver then Lib.Map.erase l.plugin.matchesByID m'.matchID else l.plugin.matchesByID)
    (hhidden : a.hidden = l.hidden) (hsent : ∀ b ∈ a.sent, b.word.1 = m.matchID) :
    Changes l a address id m' := by
  have hnamed : ∀ id', l.plugin.matchesByID id' = some address → id' = m.matchID :=
    fun id' hid' => (hp.at_name hid' hm).1.symm
  have hsame := ((sameMatch_kept m).step (SameMatch.refl m) hstep).matchID
  obtain rfl := hnamed id hid
  refine ⟨hobjects, ?_, hnamed, fun other _ => by rw [hhidden], hsent⟩
  rw [hnames, hsame, Lib.Map.set_of_eq hid]

theorem told_quietly (htold : Told l) {handled : Handled} (hplugin : handled.plugin = l.plugin) :
    Told (l.after (l.quietly handled)) := by
  unfold Told Lobby.after Lobby.quietly
  dsimp only
  rw [List.append_nil, hplugin]
  exact htold

theorem told_refuse (htold : Told l) {error : String}
    (h : (l.plugin.refuse error).map l.quietly = some a) : Told (l.after a) := by
  obtain ⟨handled, hrefuse, rfl⟩ := Option.map_eq_some_iff.mp h
  obtain rfl := Option.some.inj hrefuse
  exact told_quietly htold rfl

end Changes

/-! ## Each request -/

section Requests

variable {l : Lobby} {a : Announced} {client : Int} {random : List Nat} {m m' : Match}

theorem SameParticipants.isReady (h : SameParticipants m m') (hkind : m'.kind = m.kind) :
    m'.isReady = m.isReady := by
  unfold Match.isReady
  rw [hkind, h.host, h.guest]

/-- A start that comes to an end has not ended the match. -/
theorem start_isOver {random' : List Nat} (h : m.start random = some (m', random')) :
    m'.isOver = m.isOver := by
  unfold Match.start at h
  dsimp only at h
  split at h
  · obtain ⟨columns, rfl, -⟩ := rerollUntilCanMove_spec h
    rfl
  · rename_i hnone
    obtain ⟨columns, rfl, hcolumns, hcan⟩ := rerollUntilCanMove_spec h
    exact absurd (anyCanMove_of_canMove hcolumns.range hcan) hnone

theorem startIfReady_isOver {random' : List Nat} (h : m.startIfReady random = some (m', random')) :
    m'.isOver = m.isOver := by
  unfold Match.startIfReady at h
  split at h
  · exact start_isOver h
  · obtain ⟨rfl, -⟩ := Prod.mk.inj (Option.some.inj h)
    rfl

theorem join_isOver {random' : List Nat} (h : m.join client random = some (m', random')) :
    m'.isOver = m.isOver := by
  have hadd : (m.addPlayer client).isOver = m.isOver := by
    unfold Match.addPlayer
    split_ifs <;> rfl
  unfold Match.join at h
  split at h
  · obtain ⟨rfl, -⟩ := Prod.mk.inj (Option.some.inj h)
    exact hadd
  · exact (start_isOver h).trans hadd

theorem word_of_mem_ending {b : Broadcast} (h : b ∈ m.ending m') : b.word.1 = m.matchID := by
  unfold Match.ending at h
  split at h
  · rw [List.mem_singleton.mp h]
    rfl
  · exact absurd h List.not_mem_nil

theorem mem_unlessHidden {hidden : Bool} {sent : List Broadcast} {b : Broadcast}
    (h : b ∈ unlessHidden hidden sent) : b ∈ sent := by
  unfold unlessHidden at h
  split at h
  · exact absurd h List.not_mem_nil
  · exact h

theorem told_joinMatch (hp : Registered l.plugin) (htold : Told l) {id : Bytes}
    {asSpectator : Bool} (h : l.joinMatch client id asSpectator random = some a) :
    Told (l.after a) := by
  unfold Lobby.joinMatch at h
  dsimp only at h
  split at h
  · exact told_refuse htold h
  split at h
  · exact told_refuse htold h
  rename_i address hid
  split at h
  · cases h
  rename_i m hm
  have hopen := hp.stepped hid hm
  split at h
  · exact told_refuse htold h
  rename_i hfull
  cases asSpectator with
  | true =>
    obtain rfl := Option.some.inj h
    have hstep := Match.step_spectate hopen client
    have hchanges : Changes l (l.quietly (ProbabilityChess.store { l.plugin with
        matchesByClient := Lib.Map.emplace l.plugin.matchesByClient client address }
        address (m.spectate client)).done) address id (m.spectate client) :=
      changes_of_event hp hid hm hstep (store_objects ..) (store_names ..) rfl
        fun b hb => absurd hb List.not_mem_nil
    refine (hchanges.told_after_iff htold).mpr ?_
    show l.plugin.listing l.hidden id = if m.isOver || l.hidden address then none
      else some m.isReady
    rw [listing_of_registered l.hidden hid hm, hopen, Bool.false_or]
  | false =>
    obtain ⟨⟨m', random'⟩, hjoin, rfl⟩ := Option.map_eq_some_iff.mp h
    have hfull : m.isFull = false := by simpa using hfull
    have hstep := Match.step_join hopen hfull hjoin
    have hsame := (sameMatch_kept m).step (SameMatch.refl m) hstep
    have hover : m'.isOver = false := (join_isOver hjoin).trans hopen
    have hchanges : Changes l _ address id m' :=
      changes_of_event (a := ⟨(ProbabilityChess.store { l.plugin with
          matchesByClient := Lib.Map.emplace l.plugin.matchesByClient client address }
          address m').done, l.hidden,
          unlessHidden (l.hidden address) (m.ending m' ++ [m'.status])⟩)
        hp hid hm hstep (store_objects ..) (store_names ..) rfl (by
          intro b hb
          rcases List.mem_append.mp (mem_unlessHidden hb) with hb | hb
          · exact word_of_mem_ending hb
          · rw [List.mem_singleton.mp hb]
            exact hsame.matchID)
    refine (hchanges.told_after_iff htold).mpr ?_
    dsimp only
    rw [hover, Bool.false_or, listing_of_registered l.hidden hid hm]
    cases l.hidden address with
    | true => rfl
    | false => simp [unlessHidden, Match.status, Broadcast.word]

theorem told_createMatch (hp : Registered l.plugin) (htold : Told l) {id : Bytes}
    {columnCount : Int} {color : Color} {hidden noSkip : Bool} {type : Bytes}
    (h : l.createMatch client id columnCount color hidden noSkip type random = some a) :
    Told (l.after a) := by
  unfold Lobby.createMatch at h
  dsimp only at h
  split at h
  · exact told_refuse htold h
  split at h
  · exact told_refuse htold h
  split at h
  · exact told_refuse htold h
  split at h
  · exact told_refuse htold h
  rename_i hid
  have hid : l.plugin.matchesByID id = none := by simpa using hid
  split at h
  · exact told_refuse htold h
  rename_i kind guest htype
  obtain ⟨⟨m, random'⟩, hstart, rfl⟩ := Option.map_eq_some_iff.mp h
  obtain ⟨hsame, hparticipants⟩ := startIfReady_same hstart
  have hmatchID : m.matchID = id := hsame.matchID
  have hready := hparticipants.isReady hsame.kind
  have hopen : m.isOver = false := startIfReady_isOver hstart
  -- nothing leads to the new address
  have hunnamed : ∀ name, l.plugin.matchesByID name ≠ some l.plugin.next := by
    intro name hname
    obtain ⟨old, hold, -⟩ := hp.named name _ hname
    exact absurd (hp.fresh _ old hold) (lt_irrefl _)
  have hnone : l.plugin.listing l.hidden id = none := by
    unfold ProbabilityChess.listing
    rw [hid, Option.bind_none]
  refine (Changes.told_after_iff (show Changes l _ l.plugin.next id m from
    ⟨store_objects .., ?_, fun name hname => absurd hname (hunnamed name),
      fun other hne => Function.update_of_ne hne .., ?_⟩) htold).mpr ?_
  · show (ProbabilityChess.store _ l.plugin.next m).matchesByID = _
    rw [store_names, hmatchID, hopen, if_neg Bool.false_ne_true, if_neg Bool.false_ne_true,
      Lib.Map.emplace_of_none hid]
  · intro b hb
    rcases List.mem_cons.mp (mem_unlessHidden hb) with rfl | hb
    · rfl
    split at hb
    · rcases List.mem_append.mp hb with hb | hb
      · exact word_of_mem_ending hb
      · rw [List.mem_singleton.mp hb]
        exact hmatchID
    · exact absurd hb List.not_mem_nil
  · dsimp only
    rw [hnone, hopen, hready, Bool.false_or, Function.update_self]
    cases hidden with
    | true => rfl
    | false =>
      unfold unlessHidden
      rw [if_neg Bool.false_ne_true, if_neg Bool.false_ne_true]
      split
      · rename_i hisReady
        rw [List.getLast?_cons, List.getLast?_append]
        simp [Match.status, Broadcast.word, hready]
      · rfl

theorem told_makeMove (hp : Registered l.plugin) (htold : Told l) {move : Move}
    (h : l.makeMove client move random = some a) : Told (l.after a) := by
  unfold Lobby.makeMove at h
  dsimp only at h
  split at h
  · exact told_refuse htold h
  rename_i address hclient
  obtain ⟨m, id, hm, hid⟩ := hp.address hclient
  have hopen := hp.stepped hid hm
  rw [hm] at h
  obtain ⟨out, hmoved, rfl⟩ := Option.map_eq_some_iff.mp h
  have hstep := Match.step_move hopen hmoved
  obtain ⟨hsame, hparticipants⟩ := requestMove_same hmoved
  have hplugin : ∀ thrown : Option Thrown, (match thrown with
      | some (.chessError what) =>
        (⟨l.plugin.store address out.left, some (ascii ":Error " ++ what), none⟩ : Handled)
      | thrown => ⟨l.plugin.store address out.left, none, thrown⟩).plugin =
        l.plugin.store address out.left := by
    intro thrown
    split <;> rfl
  have hchanges : Changes l ⟨_, l.hidden, unlessHidden (l.hidden address) (m.ending out.left)⟩
      address id out.left :=
    changes_of_event hp hid hm hstep (by rw [hplugin out.thrown]; exact store_objects ..)
      (by rw [hplugin out.thrown]; exact store_names ..) rfl
      fun b hb => word_of_mem_ending (mem_unlessHidden hb)
  refine (hchanges.told_after_iff htold).mpr ?_
  dsimp only
  rw [listing_of_registered l.hidden hid hm, hparticipants.isReady hsame.kind]
  unfold Match.ending unlessHidden
  rw [hopen]
  cases out.left.isOver with
  | true => by_cases hhidden : l.hidden address = true <;> simp [hhidden, Broadcast.word]
  | false => by_cases hhidden : l.hidden address = true <;> simp [hhidden]

theorem forget_isReady (m : Match) (client : Int) :
    (m.forget client).isReady = (m.isReady && !m.hasClient client) := by
  unfold Match.isReady Match.hasClient Match.forget
  cases m.kind <;> grind

theorem forget_isActive {client : Int} (h : m.hasClient client = false) :
    (m.forget client).isActive = m.isActive := by
  unfold Match.isActive Match.forget
  unfold Match.hasClient at h
  cases hkind : m.kind <;> simp_all

/-- What `disconnect` broadcasts is what is listed then, unless the match stays ready. -/
theorem disconnect_told_iff {client : Int} (hactive : m.isActive = true)
    (hopen : m.isOver = false) :
    ((m.leaving client).getLast?.elim (some m.isReady) (fun b => b.word.2) =
      if (m.disconnect client).isOver then none else some (m.disconnect client).isReady) ↔
      m.hasClient client = true ∨ m.isReady = false := by
  unfold Match.leaving Match.disconnect
  dsimp only
  split
  · -- the last player has gone
    refine iff_of_true rfl (.inl ?_)
    rename_i hgone
    by_contra hnot
    rw [forget_isActive (Bool.eq_false_of_not_eq_true hnot), hactive] at hgone
    exact Bool.noConfusion hgone
  · have hover : (m.forget client).isOver = false := hopen
    rw [hover, if_neg Bool.false_ne_true, forget_isReady, List.getLast?_singleton]
    show some false = some (m.isReady && !m.hasClient client) ↔ _
    cases m.isReady <;> cases m.hasClient client <;> simp

/-- Leaving a match is told as it is, unless the match stays ready. -/
theorem told_leaveMatch_iff (hp : Registered l.plugin) (htold : Told l)
    (h : l.leaveMatch client = some a) : Told (l.after a) ↔
      ∀ address m, l.plugin.matchesByClient client = some address →
        l.plugin.objects address = some m → l.hidden address = false →
        m.hasClient client = true ∨ m.isReady = false := by
  unfold Lobby.leaveMatch at h
  dsimp only at h
  cases hclient : l.plugin.matchesByClient client with
  | none =>
    rw [hclient] at h
    obtain rfl := Option.some.inj h
    exact iff_of_true (told_quietly htold rfl) fun address m hnone =>
      absurd hnone (Option.some_ne_none address).symm
  | some address =>
    obtain ⟨m, id, hm, hid⟩ := hp.address hclient
    have hopen := hp.stepped hid hm
    rw [hclient] at h
    dsimp only at h
    rw [hm] at h
    obtain rfl := Option.some.inj h
    have hstep := Match.step_leave hopen client
    let left := l.plugin.store address (m.disconnect client)
    have hchanges : Changes l
        ⟨ProbabilityChess.done
            { left with matchesByClient := Lib.Map.erase left.matchesByClient client },
          l.hidden, unlessHidden (l.hidden address) (m.leaving client)⟩
        address id (m.disconnect client) := by
      refine changes_of_event hp hid hm hstep (store_objects ..) (store_names ..) rfl ?_
      intro b hb
      have hb := mem_unlessHidden hb
      unfold Match.leaving at hb
      split at hb <;> rw [List.mem_singleton.mp hb] <;> rfl
    have hactive : m.isActive = true := (hp.at_name hid hm).2.2
    refine (hchanges.told_after_iff htold).trans ?_
    dsimp only
    rw [listing_of_registered l.hidden hid hm]
    by_cases hhidden : l.hidden address = true
    · refine iff_of_true (by simp [hhidden, unlessHidden]) ?_
      rintro address' m' haddress - hpublic
      rw [← Option.some.inj haddress, hhidden] at hpublic
      exact Bool.noConfusion hpublic
    · have hhidden := Bool.eq_false_of_not_eq_true hhidden
      have hplayers : (∀ address' m', some address = some address' →
          l.plugin.objects address' = some m' → l.hidden address' = false →
          m'.hasClient client = true ∨ m'.isReady = false) ↔
          m.hasClient client = true ∨ m.isReady = false := by
        constructor
        · exact fun hall => hall address m rfl hm hhidden
        · rintro hplayer address' m' haddress hm' -
          obtain rfl := Option.some.inj haddress
          rwa [← Option.some.inj (hm.symm.trans hm')]
      rw [hplayers, ← disconnect_told_iff hactive hopen]
      simp [hhidden, unlessHidden]

theorem told_handleRequest (hp : Registered l.plugin) (htold : Told l) {hidden : Bool}
    {request : Request} (hrequest : request ≠ .leaveMatch)
    (h : l.handleRequest client hidden random request = some a) : Told (l.after a) := by
  cases request with
  | create id columnCount color noSkip type => exact told_createMatch hp htold h
  | join id => exact told_joinMatch hp htold h
  | spectate id => exact told_joinMatch hp htold h
  | createOrJoin id columnCount color noSkip type =>
    unfold Lobby.handleRequest at h
    dsimp only at h
    split at h
    · exact told_joinMatch hp htold h
    · exact told_createMatch hp htold h
  | move move => exact told_makeMove hp htold h
  | getMatches =>
    obtain rfl := Option.some.inj h
    exact told_quietly htold rfl
  | fen =>
    unfold Lobby.handleRequest at h
    dsimp only at h
    split at h
    · exact told_refuse htold h
    · obtain rfl := Option.some.inj h
      exact told_quietly htold rfl
  | leaveMatch => exact absurd rfl hrequest

end Requests

/-! ## Every run -/

section Runs

variable {l l' : Lobby}

/-- One call keeps what is told right if and only if a client that leaves leaves well. -/
theorem told_step_iff (hp : Registered l.plugin) (htold : Told l) {event : PluginEvent}
    (h : l.step event = some l') : Told l' ↔ LeavesWell l event := by
  have hleave : ∀ {client a}, l.leaveMatch client = some a → (Told (l.after a) ↔
      ∀ address m, l.plugin.matchesByClient client = some address →
        l.plugin.objects address = some m → l.hidden address = false →
        m.hasClient client = true ∨ m.isReady = false) := told_leaveMatch_iff hp htold
  cases event with
  | close client =>
    obtain ⟨a, ha, rfl⟩ := Option.map_eq_some_iff.mp h
    rw [hleave ha]
    constructor
    · rintro hall client' address m rfl
      exact hall address m
    · exact fun hall address m => hall client address m rfl
  | message client message random =>
    obtain ⟨a, ha, rfl⟩ := Option.map_eq_some_iff.mp h
    unfold Lobby.handleMessage at ha
    have hother : ¬AsksFor message .leaveMatch → LeavesWell l (.message client message random) :=
      fun hnot client' address m hleaves => absurd hleaves.2 hnot
    split at ha
    · rename_i hcolon
      exact iff_of_true (told_refuse htold ha) (hother fun hasks => hcolon hasks.1)
    rename_i hcolon
    have hcolon := not_not.mp hcolon
    split at ha
    · exact nomatch ha
    rename_i verb rest hwords
    have hasks : ∀ {request}, AsksFor message request ↔ parseWords verb rest = .ok request := by
      intro request
      unfold AsksFor words
      rw [hwords]
      constructor
      · rintro ⟨-, verb', rest', heq, hparse⟩
        obtain ⟨rfl, rfl⟩ := List.cons.inj heq
        exact hparse
      · exact fun hparse => ⟨hcolon, verb, rest, rfl, hparse⟩
    split at ha
    · rename_i what hparse
      refine iff_of_true (told_refuse htold ha) (hother fun hleave => ?_)
      rw [hasks.mp hleave] at hparse
      exact nomatch hparse
    rename_i request hparse
    by_cases hrequest : request = .leaveMatch
    · subst hrequest
      rw [hleave ha]
      constructor
      · rintro hall client' address m ⟨rfl, -⟩
        exact hall address m
      · exact fun hall address m => hall client address m ⟨rfl, hasks.mpr hparse⟩
    · refine iff_of_true (told_handleRequest hp htold hrequest ha) (hother fun hleave => ?_)
      rw [hasks.mp hleave] at hparse
      exact hrequest (Except.ok.inj hparse).symm

/-- Whatever the clients do and in whatever order: the broadcasts have told after every call which
    matches are listed and which are closed if and only if nobody has left a public match that is
    ready but its players. -/
theorem told_iff (events : List PluginEvent) :
    Lib.AllStates Lobby.step Told Lobby.initial events ↔
      Lib.AllSteps Lobby.step LeavesWell Lobby.initial events := by
  have hregistered : ∀ l event l', Registered l.plugin → Told l → Lobby.step l event = some l' →
      Told l' → Registered l'.plugin := by
    intro l event l' hp _ hstep _
    have hplugin := Lobby.step_plugin (l := l) event
    rw [hstep, Option.map_some] at hplugin
    exact hp.step hplugin.symm
  exact Lib.allStates_iff hregistered (fun _ _ _ hp htold hstep => told_step_iff hp htold hstep)
    events registered_initial rfl

/-- A spectator leaves a match against the computer, and the match that is ready is broadcast as
    open. -/
theorem not_told_spectator : ∃ l, Lib.exec Lobby.step Lobby.initial
    [.message 1 (ascii ":Create duel 1 white public skip random") [0, 0],
      .message 2 (ascii ":Spectate duel") [], .message 2 (ascii ":LeaveMatch") []] = some l ∧
      l.plugin.listing l.hidden (ascii "duel") = some true ∧
      l.sent.map Broadcast.word = [(ascii "duel", some true), (ascii "duel", some true),
        (ascii "duel", some false)] ∧ ¬Told l := by
  have hsome : (Lib.exec Lobby.step Lobby.initial
      [.message 1 (ascii ":Create duel 1 white public skip random") [0, 0],
        .message 2 (ascii ":Spectate duel") [],
        .message 2 (ascii ":LeaveMatch") []]).any (fun l =>
          l.plugin.listing l.hidden (ascii "duel") = some true ∧
          l.sent.map Broadcast.word = [(ascii "duel", some true), (ascii "duel", some true),
            (ascii "duel", some false)]) = true := by decide
  obtain ⟨l, hl, hopen⟩ := (Option.any_eq_true _ _).mp hsome
  obtain ⟨hlisted, hsent⟩ := of_decide_eq_true hopen
  refine ⟨l, hl, hlisted, hsent, fun htold => ?_⟩
  have hduel := congrFun htold (ascii "duel")
  rw [hlisted, hsent] at hduel
  exact absurd hduel (by decide)

end Runs

end Algiz.ProbChess
