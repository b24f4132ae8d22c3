/-
  What `makeMove` sends.

  `Match.lean` leaves the messages out. Here the functions under `makeMove` are written again with
  the messages that they send, in order. They do the same as before (`makeMoveNoting_outcome`).
-/
import Algiz.ProbChess.Match

namespace Algiz.ProbChess

open Board

/-- A message to everybody in a match, or what `end` does. -/
inductive Notice where
  /-- `capturedMessage` -/
  | capture (piece : Piece)
  /-- `sendBoard` -/
  | board (board : Board)
  /-- `:MoveMade` -/
  | moveMade (move : Move)
  /-- `:Promote` -/
  | promote (square : Square)
  /-- `:Turn` -/
  | turn (color : Color)
  /-- `columnMessage` -/
  | columns (columns : List Int)
  /-- `:Skip` -/
  | skip
  /-- `end`: the players and the spectators are told who wins, and the match is taken out of the
      registries -/
  | ended (winner : Role)

namespace Match

/-! ## Rolling -/

/-- A loop that rolls until a piece can move. `before` is sent ahead of each roll, and `after`
    behind it where no piece can move. -/
def rollNoting (turn : Match → Match) (before : Match → List Notice) (after : List Notice) :
    Nat → Match → List Nat → Option (Match × List Nat × List Notice)
  | 0, _, _ => none
  | fuel + 1, m, random =>
    ((turn m).roll random).bind fun (rolled, random) =>
      let sent := before (turn m) ++ [.columns rolled.columns]
      if rolled.canMove then some (rolled, random, sent)
      else (rollNoting turn before after fuel rolled random).map fun (m, random, rest) =>
        (m, random, sent ++ after ++ rest)

/-- `:Turn` -/
def turnNotice (m : Match) : List Notice := [.turn m.currentTurn]

/-- `do roll(); while (!canMove());` -/
def rerollNoting (m : Match) (random : List Nat) : Option (Match × List Nat × List Notice) :=
  rollNoting id (fun _ => []) [] (random.length + 1) m random

/-- `afterMove` of `HumanMatch`, and how `afterMove` of `AIMatch` begins. -/
def nextTurnNoting (m : Match) (random : List Nat) : Option (Match × List Nat × List Notice) :=
  if m.noSkip then (m.invertTurn.rerollNoting random).map fun (next, random, sent) =>
    (next, random, m.invertTurn.turnNotice ++ sent)
  else rollNoting invertTurn turnNotice [.skip] (random.length + 1) m random

/-! ## Moving -/

/-- A square of `checkPawns`, with the squares that were promoted so far. -/
def promoteNoting (color : Color) (x : Board × List Square) (s : Square) : Board × List Square :=
  (promote color x.1 s, x.2 ++ (((x.1.pieceAt s).filter fun piece =>
    piece.type = .pawn ∧ piece.color = color).map Piece.square).toList)

/-- `checkPawns`, with what it returns. -/
def checkPawnsNoting (b : Board) : Board × List Square :=
  let row (color : Color) (row : Int) (x : Board × List Square) : Board × List Square :=
    (List.range 8).foldl (fun x column => promoteNoting color x ⟨row, Int.ofNat column⟩) x
  row .black 7 (row .white 0 (b, []))

/-- What `makeMove` sends before `afterMove`. -/
def playNotices (m : Match) (piece : Piece) (target : Option Piece) (move : Move) : List Notice :=
  let (board, promoted) := checkPawnsNoting ((m.capture target).board.move piece move.toSquare)
  target.toList.map .capture ++ [.board board, .moveMade move] ++
    if target.any fun other => other.type = .king then [.ended m.currentPlayer]
    else promoted.map .promote

/-- A call, and what is sent before it. -/
def behind (sent : List Notice) (x : Outcome × List Notice) : Outcome × List Notice :=
  (x.1, sent ++ x.2)

/-- `afterMove`; `again` is `makeMove`. -/
def afterMoveNoting (again : Match → Role → Move → List Nat → Option (Outcome × List Notice))
    (m : Match) (random : List Nat) : Option (Outcome × List Notice) :=
  match m.kind with
  | .human => (m.nextTurnNoting random).map fun (m, random, sent) => (⟨m, random, none⟩, sent)
  | .null => (m.rerollNoting random).map fun (next, random, sent) =>
      (⟨next, random, none⟩, m.turnNotice ++ sent)
  | .ai =>
    (m.nextTurnNoting random).bind fun (m, random, sent) =>
      if m.currentTurn ≠ m.hostColor ∧ m.isOver = false then
        match m.guest with
        | some (.ai player) =>
          (player.chooseMove m.board m.currentTurn m.columns random).bind
            fun (chosen, board, random) =>
              let m := { m with board := board }
              match chosen with
              | .error thrown => some (⟨m, random, some thrown⟩, sent)
              | .ok move => (again m .guest move random).map (behind sent)
        | _ => none
      else some (⟨m, random, none⟩, sent)

/-- `makeMove` with what it sends, and with a bound on its depth. -/
def makeMoveNoting : Nat → Match → Role → Move → List Nat → Option (Outcome × List Notice)
  | 0, _, _, _, _ => none
  | fuel + 1, m, player, move, random =>
    match m.checkMove player move with
    | .error what => some (⟨m, random, some (.chessError what)⟩, [])
    | .ok (piece, target) =>
      let played := m.play piece target move.toSquare
      let sent := m.playNotices piece target move
      if target.any fun other => other.type = .king then some (⟨played, random, none⟩, sent)
      else (played.afterMoveNoting (makeMoveNoting fuel) random).map (behind sent)

/-- `makeMove` with what it sends. -/
def makeMoveSending (m : Match) (player : Role) (move : Move) (random : List Nat) :
    Option (Outcome × List Notice) :=
  makeMoveNoting (random.length + 1) m player move random

/-! ## The messages change nothing -/

section Outcomes

variable {m : Match} {random : List Nat}

/-- What a call leaves, without the messages. -/
def unnoted (x : Match × List Nat × List Notice) : Match × List Nat := (x.1, x.2.1)

theorem rollNoting_outcome (turn : Match → Match) (before : Match → List Notice)
    (after : List Notice) (fuel : Nat) :
    (rollNoting turn before after fuel m random).map unnoted =
      rollUntilCanMove turn fuel m random := by
  induction fuel generalizing m random with
  | zero => rfl
  | succ fuel ih =>
    unfold rollNoting rollUntilCanMove
    cases (turn m).roll random with
    | none => rfl
    | some x =>
      obtain ⟨rolled, random'⟩ := x
      dsimp only [Option.bind_some]
      split
      · rfl
      · rw [← ih, Option.map_map]
        rfl

theorem rerollNoting_outcome :
    (m.rerollNoting random).map unnoted = m.rerollUntilCanMove random := rollNoting_outcome ..

theorem nextTurnNoting_outcome :
    (m.nextTurnNoting random).map unnoted = m.nextTurn random := by
  unfold nextTurnNoting nextTurn
  split
  · rw [← rerollNoting_outcome, Option.map_map]
    rfl
  · exact rollNoting_outcome ..

theorem behind_outcome (sent : List Notice) (x : Option (Outcome × List Notice)) :
    (x.map (behind sent)).map Prod.fst = x.map Prod.fst := by
  cases x <;> rfl

theorem afterMoveNoting_outcome
    {noting : Match → Role → Move → List Nat → Option (Outcome × List Notice)}
    {again : Match → Role → Move → List Nat → Option Outcome}
    (h : ∀ m player move random,
      (noting m player move random).map Prod.fst = again m player move random) :
    (m.afterMoveNoting noting random).map Prod.fst = m.afterMove again random := by
  unfold afterMoveNoting afterMove
  cases m.kind with
  | human =>
    dsimp only
    rw [← nextTurnNoting_outcome, Option.map_map, Option.map_map]
    rfl
  | null =>
    dsimp only
    rw [← rerollNoting_outcome, Option.map_map, Option.map_map]
    rfl
  | ai =>
    dsimp only
    rw [← nextTurnNoting_outcome]
    cases m.nextTurnNoting random with
    | none => rfl
    | some x =>
      obtain ⟨next, random', sent⟩ := x
      dsimp only [unnoted, Option.map_some, Option.bind_some]
      split
      · cases next.guest with
        | none => rfl
        | some guest =>
          cases guest with
          | human client => rfl
          | ai player =>
            dsimp only
            cases player.chooseMove next.board next.currentTurn next.columns random' with
            | none => rfl
            | some x =>
              obtain ⟨chosen, board, random''⟩ := x
              dsimp only [Option.bind_some]
              cases chosen with
              | error thrown => rfl
              | ok move =>
                dsimp only
                rw [behind_outcome, h]
      · rfl

/-- With the messages or without them, a call does the same. -/
theorem makeMoveNoting_outcome (fuel : Nat) (m : Match) (player : Role) (move : Move)
    (random : List Nat) :
    (makeMoveNoting fuel m player move random).map Prod.fst =
      makeMoveWithin fuel m player move random := by
  induction fuel generalizing m player move random with
  | zero => rfl
  | succ fuel ih =>
    unfold makeMoveNoting makeMoveWithin
    cases m.checkMove player move with
    | error what => rfl
    | ok x =>
      obtain ⟨piece, target⟩ := x
      dsimp only
      split
      · rfl
      · rw [behind_outcome]
        exact afterMoveNoting_outcome ih

theorem makeMoveSending_outcome {player : Role} {move : Move} {out : Outcome}
    {sent : List Notice} (h : m.makeMoveSending player move random = some (out, sent)) :
    m.makeMove player move random = some out := by
  unfold makeMoveSending at h
  unfold makeMove
  rw [← makeMoveNoting_outcome, h]
  rfl

/-- With the messages a call returns where it does without them. -/
theorem makeMoveSending_returns {player : Role} {move : Move} :
    (∃ out sent, m.makeMoveSending player move random = some (out, sent)) ↔
      ∃ out, m.makeMove player move random = some out := by
  constructor
  · rintro ⟨out, sent, hcall⟩
    exact ⟨out, makeMoveSending_outcome hcall⟩
  · rintro ⟨out, hcall⟩
    unfold makeMove at hcall
    rw [← makeMoveNoting_outcome] at hcall
    obtain ⟨⟨out', sent⟩, hsending, -⟩ := Option.map_eq_some_iff.mp hcall
    exact ⟨out', sent, hsending⟩

end Outcomes

end Match

end Algiz.ProbChess
