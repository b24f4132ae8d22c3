/-
  Whose turn it is in an `AIMatch`.

  The computer player moves inside `afterMove` only, after a move of the host or after its own.
  There it moves until it is the host's turn or a king is captured, and no move of its is ever
  refused (`makeMoveWithin_returned`). But White begins, and a match whose host plays Black begins
  with the computer's turn: `createMatch` calls no `afterMove`, and the host's moves are refused
  with "Invalid turn.". So it is the host's turn exactly in the matches where the host plays White
  (`Played.turn_iff`).
-/
import Algiz.ProbChess.Pieces

namespace Algiz.ProbChess

open Match Board

section Turns

variable {m : Match}

/-- A match in which the computer can move: its host is in and its guest is a computer player. -/
structure AgainstAI (m : Match) (ai : AIPlayer) : Prop where
  kind : m.kind = .ai
  host : m.host.isSome = true
  guest : m.guest = some (.ai ai)

theorem AgainstAI.isReady {ai : AIPlayer} (h : AgainstAI m ai) : m.isReady = true := by
  unfold Match.isReady
  rw [h.kind]
  exact h.host

/-- The condition and the invariant do not look at the turn and the columns. -/
theorem AgainstAI.nextTurn {next : Match} {ai : AIPlayer} {random random' : List Nat}
    (h : AgainstAI m ai) (hm : 0 ≤ m.columnCount ∧ Sound m)
    (hnext : m.nextTurn random = some (next, random')) :
    AgainstAI next ai ∧ (0 ≤ next.columnCount ∧ Sound next) ∧ next.canMove = true ∧
      next.hostColor = m.hostColor ∧ next.winnerColor = m.winnerColor := by
  obtain ⟨turn, columns, rfl, hcolumns, hcan⟩ := nextTurn_spec hnext
  exact ⟨⟨h.kind, h.host, h.guest⟩, sound_kept.rolled m turn columns hm hcolumns, hcan, rfl, rfl⟩

theorem AgainstAI.play {ai : AIPlayer} (h : AgainstAI m ai) (piece : Piece) (target : Option Piece)
    (square : Square) : AgainstAI (m.play piece target square) ai := by
  obtain ⟨winnerColor, isOver, heq, -⟩ := play_eq m piece target square
  rw [heq]
  exact ⟨h.kind, h.host, h.guest⟩

theorem AgainstAI.computersTurn {ai : AIPlayer} (h : AgainstAI m ai)
    (hundecided : m.winnerColor = none) (hcan : m.canMove = true)
    (hturn : m.currentTurn ≠ m.hostColor) : ComputersTurn m ai :=
  ⟨h.isReady, hundecided, h.guest, hturn, hcan⟩

/-- How a call ends well: nothing is thrown, and it is the host's turn or the match is over. -/
def Returned (hostColor : Color) (out : Outcome) : Prop :=
  out.thrown = none ∧ (out.left.isOver = true ∨ out.left.currentTurn = hostColor)

/-- `afterMove` hands the turn to the host, if the moves it makes for the computer do. -/
theorem afterMove_returned {again : Match → Role → Move → List Nat → Option Outcome}
    {ai : AIPlayer} {random : List Nat} {out : Outcome}
    (hagain : ∀ {m : Match} {move : Move} {random : List Nat} {piece target}, AgainstAI m ai →
      (0 ≤ m.columnCount ∧ Sound m) → m.checkMove .guest move = .ok (piece, target) →
      again m .guest move random = some out → Returned m.hostColor out)
    (h : AgainstAI m ai) (hm : 0 ≤ m.columnCount ∧ Sound m) (hundecided : m.winnerColor = none)
    (hout : m.afterMove again random = some out) : Returned m.hostColor out := by
  unfold afterMove at hout
  rw [h.kind] at hout
  obtain ⟨⟨next, random'⟩, hnext, hout⟩ := Option.bind_eq_some_iff.mp hout
  obtain ⟨hagainst, hsound, hcan, hhost, hwinner⟩ := h.nextTurn hm hnext
  rw [← hhost]
  dsimp only at hout
  split at hout
  · rename_i hturn
    have hguest := hagainst.guest
    split at hout
    case h_2 hnone => exact absurd hguest (hnone ai)
    rename_i ai' hai
    obtain rfl : ai' = ai := by simpa [hai] using hguest
    obtain ⟨⟨chosen, board, random''⟩, hchoose, hout⟩ := Option.bind_eq_some_iff.mp hout
    have hcomputer := hagainst.computersTurn (hwinner.trans hundecided) hcan hturn.1
    obtain ⟨rfl, move, piece, target, rfl, hcheck⟩ :=
      hcomputer.chooses hsound.2.wellPlaced hchoose
    exact hagain hagainst hsound hcheck hout
  · rename_i hnot
    obtain rfl := Option.some.inj hout
    refine ⟨rfl, ?_⟩
    by_contra hneither
    obtain ⟨hover, hturn⟩ := not_or.mp hneither
    exact hnot ⟨hturn, Bool.eq_false_of_not_eq_true hover⟩

/-- An accepted move ends well, however many moves of the computer follow. -/
theorem makeMoveWithin_returned {fuel : Nat} {ai : AIPlayer} {player : Role} {move : Move}
    {random : List Nat} {out : Outcome} {piece : Piece} {target : Option Piece}
    (h : AgainstAI m ai) (hm : 0 ≤ m.columnCount ∧ Sound m)
    (hcheck : m.checkMove player move = .ok (piece, target))
    (hout : makeMoveWithin fuel m player move random = some out) : Returned m.hostColor out := by
  induction fuel generalizing m player move random piece target with
  | zero => exact nomatch hout
  | succ fuel ih =>
    unfold makeMoveWithin at hout
    rw [hcheck] at hout
    dsimp only at hout
    have haccepts := checkMove_ok hcheck
    have hplayed := sound_kept.play m player move piece target hm haccepts
    obtain ⟨winnerColor, isOver, heq, hwin⟩ := play_eq m piece target move.toSquare
    obtain ⟨hking, -, hover⟩ | ⟨hking, hopen, -⟩ := hwin
    · rw [if_pos hking] at hout
      obtain rfl := Option.some.inj hout
      refine ⟨rfl, .inl ?_⟩
      rw [heq]
      exact hover
    · rw [if_neg (Bool.not_eq_true _ ▸ hking)] at hout
      have hundecided : (m.play piece target move.toSquare).winnerColor = none := by
        rw [heq]
        exact hopen.trans haccepts.undecided
      have hhost : (m.play piece target move.toSquare).hostColor = m.hostColor := by rw [heq]
      rw [← hhost]
      exact afterMove_returned ih (h.play piece target move.toSquare) hplayed hundecided hout

end Turns

/-! ## Every match against the computer -/

/-- What holds of a match against the computer: as long as it is not over, its host is in and
    it is White's turn. -/
structure WhitesTurn (m : Match) : Prop where
  against : m.isOver = false → ∃ ai, AgainstAI m ai
  turn : m.isOver = false → m.currentTurn = .white

section Every

variable {m m' : Match}

theorem matchType_ai {type : Bytes} {guest : Option Player}
    (h : matchType type = some (.ai, guest)) : ∃ ai, guest = some (.ai ai) := by
  unfold matchType at h
  repeat' split at h
  all_goals simp only [Option.some.injEq, Prod.mk.injEq, reduceCtorEq, false_and, true_and] at h
  all_goals exact ⟨_, h.symm⟩

/-- A client of a match against the computer is its host. -/
theorem AgainstAI.getPlayer {ai : AIPlayer} (h : AgainstAI m ai) {client : Int} {player : Role}
    (hplayer : m.getPlayer client = some player) : player = .host := by
  unfold Match.getPlayer at hplayer
  rw [h.guest] at hplayer
  split at hplayer
  · exact (Option.some.inj hplayer).symm
  · simp at hplayer

/-- A request for a move leaves the turn with White. -/
theorem WhitesTurn.requestMove (hm : 0 ≤ m.columnCount ∧ Sound m) (h : WhitesTurn m)
    (hopen : m.isOver = false) {client : Int} {move : Move} {random : List Nat} {out : Outcome}
    (hout : m.requestMove client move random = some out) : WhitesTurn out.left := by
  obtain ⟨ai, hagainst⟩ := h.against hopen
  obtain ⟨hsame, hparticipants⟩ := requestMove_same hout
  refine ⟨fun _ => ⟨ai, hsame.kind.trans hagainst.kind, ?_, ?_⟩, ?_⟩
  · rw [hparticipants.host]
    exact hagainst.host
  · rw [hparticipants.guest]
    exact hagainst.guest
  intro hover
  have hwhite := h.turn hopen
  unfold Match.requestMove at hout
  split at hout
  · obtain rfl := Option.some.inj hout
    exact hwhite
  rename_i player hplayer
  cases hcheck : m.checkMove player move with
  | error what =>
    unfold Match.makeMove makeMoveWithin at hout
    rw [hcheck] at hout
    obtain rfl := Option.some.inj hout
    exact hwhite
  | ok accepted =>
    obtain ⟨piece, target⟩ := accepted
    -- the host may move, so the host plays White
    have hturn := (checkMove_ok hcheck).turn
    rw [hagainst.getPlayer hplayer] at hturn
    have hhost : m.currentTurn = m.hostColor := by
      by_contra hne
      unfold Match.currentPlayer at hturn
      rw [if_neg hne] at hturn
      cases hturn
    obtain ⟨-, hreturned⟩ := makeMoveWithin_returned hagainst hm hcheck hout
    rcases hreturned with hover' | hturn'
    · rw [hover'] at hover
      exact Bool.noConfusion hover
    · rw [hturn', ← hhost, hwhite]

/-- No event changes that it is White's turn. -/
theorem WhitesTurn.step (hm : 0 ≤ m.columnCount ∧ Sound m) (h : WhitesTurn m) {event : MatchEvent}
    (hstep : m.step event = some m') : WhitesTurn m' := by
  unfold Match.step at hstep
  split at hstep
  · exact nomatch hstep
  rename_i hover
  have hopen := Bool.eq_false_of_not_eq_true hover
  obtain ⟨ai, hagainst⟩ := h.against hopen
  cases event with
  | join client random =>
    have hfull : m.isFull = true := by
      unfold Match.isFull
      rw [hagainst.host, hagainst.guest]
      rfl
    rw [hfull] at hstep
    exact nomatch hstep
  | spectate client =>
    obtain rfl := Option.some.inj hstep
    exact ⟨fun _ => ⟨ai, hagainst.kind, hagainst.host, hagainst.guest⟩, h.turn⟩
  | move client move random =>
    obtain ⟨out, hmove, rfl⟩ := Option.map_eq_some_iff.mp hstep
    exact h.requestMove hm hopen hmove
  | leave client =>
    obtain rfl := Option.some.inj hstep
    have hguest : (m.forget client).guest = some (.ai ai) := by
      unfold Match.forget
      rw [hagainst.guest]
      rfl
    unfold Match.disconnect
    dsimp only
    split
    · exact ⟨(fun hover => nomatch hover), fun hover => nomatch hover⟩
    · rename_i hactive
      have hactive : (m.forget client).isActive = true := by simpa using hactive
      have hkind : (m.forget client).kind = .ai := hagainst.kind
      unfold Match.isActive at hactive
      rw [hkind] at hactive
      exact ⟨fun _ => ⟨ai, hkind, hactive, hguest⟩, h.turn⟩

/-- Starting a match rolls for White, whatever the host plays. -/
theorem WhitesTurn.start {ai : AIPlayer} (h : AgainstAI m ai) (hturn : m.currentTurn = .white)
    {random random' : List Nat} (hstart : m.start random = some (m', random')) :
    WhitesTurn m' := by
  have hagainst : AgainstAI { m with started := true } ai := ⟨h.kind, h.host, h.guest⟩
  unfold Match.start at hstart
  dsimp only at hstart
  split at hstart
  all_goals
    obtain ⟨columns, rfl, -⟩ := rerollUntilCanMove_spec hstart
    exact ⟨fun _ => ⟨ai, hagainst.kind, hagainst.host, hagainst.guest⟩, fun _ => hturn⟩

theorem Created.whitesTurn (hm : Created m) (hkind : m.kind = .ai) : WhitesTurn m := by
  obtain ⟨o, client, address, random, random', hcreate⟩ := hm
  have hhosted : o.kind = .ai → ∃ ai, AgainstAI (o.hosted client address) ai ∧
      (o.hosted client address).currentTurn = .white := by
    intro hkind
    obtain ⟨type, htype⟩ := o.isType
    rw [hkind] at htype
    obtain ⟨ai, hguest⟩ := matchType_ai htype
    refine ⟨ai, ⟨hkind, rfl, hguest⟩, ?_⟩
    show (if o.kind = .null then o.color else Color.white) = .white
    rw [hkind]
    rfl
  unfold Opening.create Match.startIfReady at hcreate
  split at hcreate
  · have hsame := (sameMatch_kept (o.hosted client address)).start (SameMatch.refl _) hcreate
    obtain ⟨ai, hagainst, hturn⟩ := hhosted (hsame.kind.symm.trans hkind)
    exact WhitesTurn.start hagainst hturn hcreate
  · obtain ⟨rfl, -⟩ := Prod.mk.inj (Option.some.inj hcreate)
    obtain ⟨ai, hagainst, hturn⟩ := hhosted hkind
    exact ⟨fun _ => ⟨ai, hagainst⟩, fun _ => hturn⟩

theorem Played.whitesTurn (hm : Played m) (hkind : m.kind = .ai) : WhitesTurn m := by
  obtain ⟨start, hcreated, hreach⟩ := hm
  have hstep : ∀ s e t, (Played s ∧ (s.kind = .ai → WhitesTurn s)) → Match.step s e = some t →
      Played t ∧ (t.kind = .ai → WhitesTurn t) := by
    rintro s e t ⟨hplayed, hwhite⟩ hst
    have hsame := (sameMatch_kept s).step (SameMatch.refl s) hst
    refine ⟨hplayed.step hst, fun hkind => ?_⟩
    exact (hwhite (hsame.kind.symm.trans hkind)).step hplayed.soundCount hst
  exact (hreach.invariant hstep ⟨hcreated.played, hcreated.whitesTurn⟩).2 hkind

/-- In a match against the computer that is not over, it is the host's turn if and only if the
    host plays White. -/
theorem Played.turn_iff (hm : Played m) (hkind : m.kind = .ai) (hopen : m.isOver = false) :
    m.currentTurn = m.hostColor ↔ m.hostColor = .white := by
  rw [(hm.whitesTurn hkind).turn hopen]
  exact eq_comm

/-- A match against the computer, one column a turn. -/
def againstComputer (color : Color) : Opening where
  matchID := ascii "computer"
  columnCount := 1
  color := color
  noSkip := true
  kind := .ai
  guest := some (.ai .random)
  columnCount_range := oneColumn_range
  isType := ⟨ascii "random", rfl⟩

/-- The host plays White and moves, and the computer answers. -/
theorem Played.turn_iff_white : ∃ m, (((againstComputer .white).create 1 0 [0, 0]).bind
    fun (m, _) => m.step (.move 1 ⟨⟨6, 1⟩, ⟨4, 1⟩⟩ [0, 0, 0, 0, 0])) = some m ∧
      (m.currentTurn = m.hostColor ↔ m.hostColor = .white) := by
  have hsome : (((againstComputer .white).create 1 0 [0, 0]).bind fun (m, _) =>
      m.step (.move 1 ⟨⟨6, 1⟩, ⟨4, 1⟩⟩ [0, 0, 0, 0, 0])).any
        (fun m => m.kind = .ai ∧ m.isOver = false) = true := by decide
  obtain ⟨m, hm, hopen⟩ := (Option.any_eq_true _ _).mp hsome
  obtain ⟨⟨start, random'⟩, hcreate, hstep⟩ := Option.bind_eq_some_iff.mp hm
  have hopen := of_decide_eq_true hopen
  have hstart : Played start := Created.played ⟨_, 1, 0, _, _, hcreate⟩
  exact ⟨m, hm, Played.turn_iff (hstart.step hstep) hopen.1 hopen.2⟩

/-- The host plays Black, and waits. -/
theorem Played.not_turn_black : ¬∀ m, Played m → m.kind = .ai → m.isOver = false →
    m.host.isSome = true → m.currentTurn = m.hostColor := by
  intro hall
  have hsome : ((againstComputer .black).create 1 0 [0, 0]).any
      (fun (m, _) => m.kind = .ai ∧ m.isOver = false ∧ m.host.isSome = true ∧
        m.currentTurn ≠ m.hostColor) = true := by decide
  obtain ⟨⟨m, random'⟩, hcreate, hm⟩ := (Option.any_eq_true _ _).mp hsome
  obtain ⟨hkind, hopen, hhost, hturn⟩ := of_decide_eq_true hm
  have hplayed : Played m := Created.played ⟨_, 1, 0, _, _, hcreate⟩
  exact hturn (hall m hplayed hkind hopen hhost)

end Every

end Algiz.ProbChess
