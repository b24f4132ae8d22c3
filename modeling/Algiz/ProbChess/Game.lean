/-
  One match from `createMatch` to `end`.

  `Match.step` is what the requests of clients do to one match: `joinMatch`, a `:Move`,
  `leaveMatch` and a closed connection. Once a match is over it is in no registry and no request
  finds it any more. `Played.rule` is the induction over such a history: what the host's match has,
  and what the calls, the players that come and go, the start and the end keep, holds of every
  match between two requests.
-/
import Algiz.Lib.Transition
import Algiz.ProbChess.Match

namespace Algiz.ProbChess

open Match Board

namespace Match

/-- How `createMatch` and `joinMatch` start a match. -/
def start (m : Match) (random : List Nat) : Option (Match × List Nat) :=
  let m := { m with started := true }
  let m := if m.anyCanMove then m else m.endMatch
  m.rerollUntilCanMove random

/-- `if (match->isReady())` in `createMatch` -/
def startIfReady (m : Match) (random : List Nat) : Option (Match × List Nat) :=
  if m.isReady then m.start random else some (m, random)

/-- Are both places taken? -/
def isFull (m : Match) : Bool := m.host.isSome && m.guest.isSome

/-- A client takes the first place that is free. -/
def addPlayer (m : Match) (client : Int) : Match :=
  if m.host.isNone then { m with host := some (.human client) }
  else if m.guest.isNone then { m with guest := some (.human client) }
  else m

/-- What `joinMatch` does to the match for a player. -/
def join (m : Match) (client : Int) (random : List Nat) : Option (Match × List Nat) :=
  if m.started then some (m.addPlayer client, random) else (m.addPlayer client).start random

/-- What `joinMatch` does to the match for a spectator. -/
def spectate (m : Match) (client : Int) : Match := { m with spectators := m.spectators ++ [client] }

/-- `match->makeMove(match->getPlayer(client.id), move)` -/
def requestMove (m : Match) (client : Int) (move : Move) (random : List Nat) : Option Outcome :=
  match m.getPlayer client with
  | none => some ⟨m, random, some (.runtimeError (ascii "Couldn't find player for connection"))⟩
  | some player => m.makeMove player move random

end Match

/-- The types of a match in a `:Create` message, and the guest that it comes with. -/
def matchType (type : Bytes) : Option (MatchKind × Option Player) :=
  if type = ascii "human" then some (.human, none)
  else if type = ascii "random" then some (.ai, some (.ai .random))
  else if type = ascii "cccp" then some (.ai, some (.ai .cccp))
  else if type = ascii "cccp2" then some (.ai, some (.ai .cccp2))
  else if type = ascii "null" then some (.null, none)
  else none

/-- A match before it starts, with the client as its host. Its board is at `address`. -/
def Match.hosted (kind : MatchKind) (matchID : Bytes) (noSkip : Bool) (columnCount : Int)
    (color : Color) (guest : Option Player) (client : Int) (address : Nat) : Match :=
  { new kind matchID noSkip columnCount color guest address with host := some (.human client) }

/-- What `createMatch` has been asked for, after its checks. -/
structure Opening where
  matchID : Bytes
  columnCount : Int
  color : Color
  noSkip : Bool
  kind : MatchKind
  guest : Option Player
  /-- `column_count < 1 || 8 < column_count` is refused -/
  columnCount_range : 1 ≤ columnCount ∧ columnCount ≤ 8
  /-- any other type is refused -/
  isType : ∃ type, matchType type = some (kind, guest)

theorem oneColumn_range : (1 : Int) ≤ 1 ∧ (1 : Int) ≤ 8 := by decide

/-- Its match before it starts. -/
def Opening.hosted (o : Opening) (client : Int) (address : Nat) : Match :=
  Match.hosted o.kind o.matchID o.noSkip o.columnCount o.color o.guest client address

/-- The match that `createMatch` makes. -/
def Opening.create (o : Opening) (client : Int) (address : Nat) (random : List Nat) :
    Option (Match × List Nat) := (o.hosted client address).startIfReady random

/-- What the clients do with a match. Each brings the random numbers that will be used. -/
inductive MatchEvent where
  | join (client : Int) (random : List Nat)
  | spectate (client : Int)
  | move (client : Int) (move : Move) (random : List Nat)
  | leave (client : Int)

/-- The match after an event; `none` if no such event reaches it, or if it has not returned. -/
def Match.step (m : Match) (event : MatchEvent) : Option Match :=
  if m.isOver then none
  else match event with
    | .join client random =>
      if m.isFull then none else (m.join client random).map fun (m, _) => m
    | .spectate client => some (m.spectate client)
    | .move client move random => (m.requestMove client move random).map Outcome.left
    | .leave client => some (m.disconnect client)

section Open

variable {m m' : Match} {client : Int} {random random' : List Nat}

theorem Match.step_join (hopen : m.isOver = false) (hfull : m.isFull = false)
    (h : m.join client random = some (m', random')) : m.step (.join client random) = some m' := by
  unfold Match.step
  rw [hopen]
  dsimp only
  rw [hfull, h]
  rfl

theorem Match.step_spectate (hopen : m.isOver = false) (client : Int) :
    m.step (.spectate client) = some (m.spectate client) := by
  unfold Match.step
  rw [hopen]
  rfl

theorem Match.step_move (hopen : m.isOver = false) {move : Move} {out : Outcome}
    (h : m.requestMove client move random = some out) :
    m.step (.move client move random) = some out.left := by
  unfold Match.step
  rw [hopen]
  dsimp only
  rw [h]
  rfl

theorem Match.step_leave (hopen : m.isOver = false) (client : Int) :
    m.step (.leave client) = some (m.disconnect client) := by
  unfold Match.step
  rw [hopen]
  rfl

end Open

/-- A match that `createMatch` has made. -/
def Created (m : Match) : Prop :=
  ∃ (o : Opening) (client : Int) (address : Nat) (random random' : List Nat),
    o.create client address random = some (m, random')

/-- A match as it can be between two requests. -/
def Played (m : Match) : Prop := ∃ start, Created start ∧ Lib.Reachable Match.step start m

theorem Created.played {m : Match} (h : Created m) : Played m := ⟨m, h, [], rfl⟩

theorem Played.step {m m' : Match} {event : MatchEvent} (hm : Played m)
    (h : m.step event = some m') : Played m' := by
  obtain ⟨start, hcreated, es, hexec⟩ := hm
  exact ⟨start, hcreated, es ++ [event],
    Lib.exec_append hexec (Option.bind_eq_some_iff.mpr ⟨m', h, rfl⟩)⟩

/-! ## Rules for the steps -/

section Steps

variable {P : Match → Prop}

/-- What the participants, the start and the calls keep. -/
structure KeptInPlay (P : Match → Prop) : Prop extends Kept P where
  /-- players and spectators come and go -/
  participants : ∀ m host guest spectators, P m →
    P { m with host := host, guest := guest, spectators := spectators }
  /-- a match ends -/
  ends : ∀ m, P m → P m.endMatch
  /-- the first roll -/
  started : ∀ m columns, P m → Rolled m.columnCount columns →
    P { m with started := true, columns := columns }

theorem KeptInPlay.start (hP : KeptInPlay P) {m m' : Match} {random random' : List Nat} (hm : P m)
    (h : m.start random = some (m', random')) : P m' := by
  unfold Match.start at h
  dsimp only at h
  split at h
  · obtain ⟨columns, rfl, hcolumns, -⟩ := rerollUntilCanMove_spec h
    exact hP.started m columns hm hcolumns
  · obtain ⟨columns, rfl, hcolumns, -⟩ := rerollUntilCanMove_spec h
    exact hP.ends _ (hP.started m columns hm hcolumns)

theorem KeptInPlay.addPlayer (hP : KeptInPlay P) {m : Match} (client : Int) (hm : P m) :
    P (m.addPlayer client) := by
  unfold Match.addPlayer
  split
  · exact hP.participants m _ _ _ hm
  · split
    · exact hP.participants m _ _ _ hm
    · exact hm

theorem KeptInPlay.disconnect (hP : KeptInPlay P) {m : Match} (client : Int) (hm : P m) :
    P (m.disconnect client) := by
  have hforget : P (m.forget client) := hP.participants m _ _ _ hm
  unfold Match.disconnect
  dsimp only
  split
  · exact hP.ends _ hforget
  · exact hforget

theorem KeptInPlay.requestMove (hP : KeptInPlay P) {m : Match} {client : Int} {move : Move}
    {random : List Nat} {out : Outcome} (hm : P m)
    (h : m.requestMove client move random = some out) : P out.left := by
  unfold Match.requestMove at h
  split at h
  · obtain rfl := Option.some.inj h
    exact hm
  · exact makeMoveWithin_rule hP.toKept hm h

/-- One event keeps what its parts keep. -/
theorem KeptInPlay.step (hP : KeptInPlay P) {m m' : Match} {event : MatchEvent} (hm : P m)
    (h : m.step event = some m') : P m' := by
  unfold Match.step at h
  split at h
  · exact nomatch h
  cases event with
  | join client random =>
    dsimp only at h
    split at h
    · exact nomatch h
    obtain ⟨⟨joined, random'⟩, hjoin, rfl⟩ := Option.map_eq_some_iff.mp h
    unfold Match.join at hjoin
    split at hjoin
    · obtain ⟨rfl, -⟩ := Prod.mk.inj (Option.some.inj hjoin)
      exact hP.addPlayer client hm
    · exact hP.start (hP.addPlayer client hm) hjoin
  | spectate client =>
    obtain rfl := Option.some.inj h
    exact hP.participants m m.host m.guest _ hm
  | move client move random =>
    obtain ⟨out, hmove, rfl⟩ := Option.map_eq_some_iff.mp h
    exact hP.requestMove hm hmove
  | leave client =>
    obtain rfl := Option.some.inj h
    exact hP.disconnect client hm

/-- What a match has when its host is in and what its steps keep, it has all along. -/
theorem Played.rule (hP : KeptInPlay P)
    (hhosted : ∀ (o : Opening) client address, P (o.hosted client address)) {m : Match}
    (hm : Played m) : P m := by
  obtain ⟨start, ⟨o, client, address, random, random', hcreate⟩, hreach⟩ := hm
  refine hreach.invariant (fun s e t hs hst => hP.step hs hst) ?_
  unfold Opening.create Match.startIfReady at hcreate
  split at hcreate
  · exact hP.start (hhosted o client address) hcreate
  · obtain ⟨rfl, -⟩ := Prod.mk.inj (Option.some.inj hcreate)
    exact hhosted o client address

end Steps

/-! ## What stays the same -/

/-- What no event changes. -/
structure SameMatch (m m' : Match) : Prop where
  kind : m'.kind = m.kind
  matchID : m'.matchID = m.matchID
  hostColor : m'.hostColor = m.hostColor

theorem sameMatch_kept (m : Match) : KeptInPlay (SameMatch m) where
  play x player move piece target h _ := by
    obtain ⟨winnerColor, isOver, heq, -⟩ := play_eq x piece target move.toSquare
    rw [heq]
    exact ⟨h.kind, h.matchID, h.hostColor⟩
  rolled _ _ _ h _ := ⟨h.kind, h.matchID, h.hostColor⟩
  chosen _ _ _ _ _ _ h _ _ := ⟨h.kind, h.matchID, h.hostColor⟩
  participants _ _ _ _ h := ⟨h.kind, h.matchID, h.hostColor⟩
  ends _ h := ⟨h.kind, h.matchID, h.hostColor⟩
  started _ _ h _ := ⟨h.kind, h.matchID, h.hostColor⟩

theorem SameMatch.refl (m : Match) : SameMatch m m := ⟨rfl, rfl, rfl⟩

/-- What a call does not change. -/
structure SameParticipants (m m' : Match) : Prop where
  host : m'.host = m.host
  guest : m'.guest = m.guest
  spectators : m'.spectators = m.spectators

theorem sameParticipants_kept (m : Match) : Kept (SameParticipants m) where
  play x player move piece target h _ := by
    obtain ⟨winnerColor, isOver, heq, -⟩ := play_eq x piece target move.toSquare
    rw [heq]
    exact ⟨h.host, h.guest, h.spectators⟩
  rolled _ _ _ h _ := ⟨h.host, h.guest, h.spectators⟩
  chosen _ _ _ _ _ _ h _ _ := ⟨h.host, h.guest, h.spectators⟩

theorem SameParticipants.refl (m : Match) : SameParticipants m m := ⟨rfl, rfl, rfl⟩

section Requests

variable {m : Match} {client : Int} {move : Move} {random : List Nat} {out : Outcome}

theorem requestMove_same (h : m.requestMove client move random = some out) :
    SameMatch m out.left ∧ SameParticipants m out.left := by
  refine ⟨(sameMatch_kept m).requestMove (SameMatch.refl m) h, ?_⟩
  unfold Match.requestMove at h
  split at h
  · obtain rfl := Option.some.inj h
    exact SameParticipants.refl m
  · exact makeMoveWithin_rule (sameParticipants_kept m) (SameParticipants.refl m) h

end Requests

/-! ## Who is in a match -/

section Members

variable {m m' : Match} {client other : Int}

/-- The client is the host, the guest or a spectator. -/
def Match.HasMember (m : Match) (client : Int) : Prop :=
  m.host = some (.human client) ∨ m.guest = some (.human client) ∨ client ∈ m.spectators

theorem SameParticipants.hasMember (h : SameParticipants m m') :
    m'.HasMember client ↔ m.HasMember client := by
  unfold Match.HasMember
  rw [h.host, h.guest, h.spectators]

theorem SameParticipants.isActive (h : SameParticipants m m') (hkind : m'.kind = m.kind) :
    m'.isActive = m.isActive := by
  unfold Match.isActive
  rw [hkind, h.host, h.guest]

theorem start_same {random random' : List Nat} (h : m.start random = some (m', random')) :
    SameParticipants m m' := by
  unfold Match.start at h
  dsimp only at h
  split at h
  all_goals
    obtain ⟨columns, rfl, -⟩ := rerollUntilCanMove_spec h
    exact ⟨rfl, rfl, rfl⟩

theorem startIfReady_same {random random' : List Nat}
    (h : m.startIfReady random = some (m', random')) : SameMatch m m' ∧ SameParticipants m m' := by
  unfold Match.startIfReady at h
  split at h
  · exact ⟨(sameMatch_kept m).start (SameMatch.refl m) h, start_same h⟩
  · obtain ⟨rfl, -⟩ := Prod.mk.inj (Option.some.inj h)
    exact ⟨SameMatch.refl m, SameParticipants.refl m⟩

theorem hosted_hasMember (o : Opening) (address : Nat) :
    (o.hosted client address).HasMember other ↔ other = client := by
  obtain ⟨type, htype⟩ := o.isType
  have hguest : o.guest ≠ some (.human other) := by
    intro heq
    rw [heq] at htype
    unfold matchType at htype
    repeat' split at htype
    all_goals simp at htype
  constructor
  · rintro (hhost | hguest' | hspectator)
    · exact (Player.human.inj (Option.some.inj hhost)).symm
    · exact absurd hguest' hguest
    · exact absurd hspectator List.not_mem_nil
  · rintro rfl
    exact .inl rfl

/-- A player that joins takes a place of its own. -/
theorem addPlayer_hasMember (hfull : m.isFull = false) :
    (m.addPlayer client).HasMember other ↔ m.HasMember other ∨ other = client := by
  unfold Match.isFull at hfull
  unfold Match.addPlayer Match.HasMember
  cases hhost : m.host with
  | none => simp [or_comm, eq_comm]
  | some host =>
    cases hguest : m.guest with
    | none =>
      have hplaces : some host = some (.human other) ∨ some (Player.human client) =
          some (.human other) ∨ other ∈ m.spectators ↔
          (some host = some (.human other) ∨ none = some (Player.human other) ∨
            other ∈ m.spectators) ∨ other = client := by
        simp only [Option.some.injEq, Player.human.injEq, reduceCtorEq, false_or]
        rw [or_assoc, or_comm (a := other ∈ m.spectators), eq_comm (a := client)]
      simpa [hhost] using hplaces
    | some guest =>
      rw [hhost, hguest] at hfull
      exact Bool.noConfusion hfull

theorem join_hasMember (hfull : m.isFull = false) {random random' : List Nat}
    (h : m.join client random = some (m', random')) :
    m'.HasMember other ↔ m.HasMember other ∨ other = client := by
  unfold Match.join at h
  split at h
  · obtain ⟨rfl, -⟩ := Prod.mk.inj (Option.some.inj h)
    exact addPlayer_hasMember hfull
  · rw [(start_same h).hasMember, addPlayer_hasMember hfull]

theorem spectate_hasMember :
    (m.spectate client).HasMember other ↔ m.HasMember other ∨ other = client := by
  unfold Match.spectate Match.HasMember
  simp [or_assoc]

theorem disconnect_hasMember :
    (m.disconnect client).HasMember other ↔ m.HasMember other ∧ other ≠ client := by
  have hforget : (m.forget client).HasMember other ↔ m.HasMember other ∧ other ≠ client := by
    have hplace : ∀ place : Option Player,
        (if place = some (.human client) then none else place) = some (.human other) ↔
          place = some (.human other) ∧ other ≠ client := by
      intro place
      split
      · rename_i heq
        subst heq
        simp [eq_comm]
      · rename_i hne
        refine (and_iff_left_of_imp ?_).symm
        rintro rfl rfl
        exact hne rfl
    unfold Match.forget Match.HasMember
    rw [hplace, hplace, List.mem_filter, decide_eq_true_eq, ← or_and_right, ← or_and_right]
  unfold Match.disconnect
  dsimp only
  split <;> exact hforget

theorem addPlayer_active (client : Int) (h : m.isActive = true) :
    (m.addPlayer client).isActive = true := by
  unfold Match.addPlayer
  split
  · unfold Match.isActive
    dsimp only
    cases m.kind <;> rfl
  · split
    · unfold Match.isActive at h ⊢
      dsimp only
      cases hkind : m.kind with
      | human => exact Bool.or_true _
      | ai => rwa [hkind] at h
      | null => rwa [hkind] at h
    · exact h

/-- A match that is not over has a player in it who can go on. -/
theorem Match.step_active {event : MatchEvent} (hm : m.isOver = false → m.isActive = true)
    (h : m.step event = some m') (hopen : m'.isOver = false) : m'.isActive = true := by
  unfold Match.step at h
  split at h
  · exact nomatch h
  rename_i hover
  have hactive := hm (Bool.eq_false_of_not_eq_true hover)
  cases event with
  | join client random =>
    dsimp only at h
    split at h
    · exact nomatch h
    obtain ⟨⟨joined, random'⟩, hjoin, rfl⟩ := Option.map_eq_some_iff.mp h
    have hadd := addPlayer_active client hactive
    unfold Match.join at hjoin
    split at hjoin
    · obtain ⟨rfl, -⟩ := Prod.mk.inj (Option.some.inj hjoin)
      exact hadd
    · have hkind := ((sameMatch_kept _).start (SameMatch.refl _) hjoin).kind
      rw [(start_same hjoin).isActive hkind]
      exact hadd
  | spectate client =>
    obtain rfl := Option.some.inj h
    exact hactive
  | move client move random =>
    obtain ⟨out, hmove, rfl⟩ := Option.map_eq_some_iff.mp h
    obtain ⟨hsame, hparticipants⟩ := requestMove_same hmove
    rw [hparticipants.isActive hsame.kind]
    exact hactive
  | leave client =>
    obtain rfl := Option.some.inj h
    unfold Match.disconnect at hopen ⊢
    dsimp only at hopen ⊢
    split at hopen
    · exact nomatch hopen
    · rename_i hforget
      rw [if_neg hforget]
      simpa using hforget

theorem Opening.create_active {o : Opening} {address : Nat} {random random' : List Nat}
    (h : o.create client address random = some (m, random')) : m.isActive = true := by
  obtain ⟨hsame, hparticipants⟩ := startIfReady_same h
  rw [hparticipants.isActive hsame.kind]
  unfold Match.isActive
  cases (o.hosted client address).kind <;> rfl

end Members

end Algiz.ProbChess
