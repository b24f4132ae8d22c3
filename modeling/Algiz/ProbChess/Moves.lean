/-
  What a call to `makeMove` leaves, and what a computer player gives to it.

  The checks come first, and a move that passes them is made: no call that goes on to the moves of
  a computer player is refused in one of those (`makeMoveWithin_accepted`). So where a `ChessError`
  is thrown, nothing has been done and nothing was sent (`makeMove_atomic`). Between humans the call
  is over when a king is captured, and otherwise when the loop of the next turn is
  (`makeMove_returns`). The sweep over the last rows looks at every square by itself
  (`checkPawns_pieceAt`), and finds no pawn but the one that has moved, as those that came before it
  are queens.
-/
import Algiz.ProbChess.Notices
import Algiz.ProbChess.Pieces
import Algiz.ProbChess.Reach

namespace Algiz.ProbChess

open Match Board

/-! ## The sweep -/

section Sweep

variable {b : Board} {color : Color} {s t : Square}

/-- What the sweep makes of a piece on a square of the last row of a color. -/
def crowned (color : Color) (self : Nat) (s : Square) (piece : Piece) : Piece :=
  if piece.type = .pawn ∧ piece.color = color then ⟨.queen, color, s, self⟩ else piece

theorem crowned_crowned (color : Color) (self : Nat) (s : Square) (piece : Piece) :
    crowned color self s (crowned color self s piece) = crowned color self s piece := by
  unfold crowned
  split
  · exact if_neg fun h => nomatch h.1
  · rfl

theorem promote_self (color : Color) (b : Board) (s : Square) :
    (promote color b s).self = b.self := by
  unfold promote
  split
  · rfl
  · split <;> rfl

theorem promote_pieceAt (hb : WellPlaced b) : (promote color b s).pieceAt t =
    if t = s then (b.pieceAt t).map (crowned color b.self t) else b.pieceAt t := by
  unfold promote
  cases hpiece : b.pieceAt s with
  | none =>
    dsimp only
    split
    · rename_i heq
      rw [heq, hpiece]
      rfl
    · rfl
  | some piece =>
    dsimp only
    by_cases hpawn : piece.type = .pawn ∧ piece.color = color
    · rw [if_pos hpawn]
      unfold Board.erase Board.set
      rw [hb.square_eq hpiece]
      split
      · rename_i heq
        subst heq
        rw [pieceAt_put_self (onBoard_of_pieceAt hpiece), hpiece, Option.map_some]
        unfold crowned
        rw [if_pos hpawn]
        rfl
      · rename_i hne
        rw [pieceAt_put_of_ne hne, pieceAt_put_of_ne hne]
    · rw [if_neg hpawn]
      split
      · rename_i heq
        rw [heq, hpiece, Option.map_some]
        unfold crowned
        rw [if_neg hpawn]
      · rfl

theorem promoteColumns_pieceAt (hb : WellPlaced b) (row : Int) (columns : List Nat) :
    (columns.foldl (fun b column => promote color b ⟨row, Int.ofNat column⟩) b).pieceAt t =
      if t.row = row ∧ t.column ∈ columns.map Int.ofNat then
        (b.pieceAt t).map (crowned color b.self t) else b.pieceAt t := by
  induction columns generalizing b with
  | nil => simp
  | cons column columns ih =>
    rw [List.foldl_cons, ih (promote_wellPlaced hb _ _), promote_self, promote_pieceAt hb]
    have ht : t = ⟨row, Int.ofNat column⟩ ↔ t.row = row ∧ t.column = Int.ofNat column := by
      obtain ⟨row', column'⟩ := t
      simp only [Square.mk.injEq]
    have hcrowned : ((b.pieceAt t).map (crowned color b.self t)).map (crowned color b.self t) =
        (b.pieceAt t).map (crowned color b.self t) := by
      rw [Option.map_map]
      exact congrArg (Option.map · (b.pieceAt t)) (funext (crowned_crowned color b.self t))
    simp only [List.map_cons, List.mem_cons]
    by_cases hrow : t.row = row
    · by_cases hcolumn : t.column = Int.ofNat column
      · rw [if_pos (ht.mpr ⟨hrow, hcolumn⟩), hcrowned, ite_self, if_pos ⟨hrow, .inl hcolumn⟩]
      · simp only [ht, hrow, hcolumn, true_and, false_or, if_false]
    · simp only [ht, hrow, false_and, if_false]

theorem promoteRow_pieceAt (hb : WellPlaced b) (row : Int) : (promoteRow color row b).pieceAt t =
    if t.row = row then (b.pieceAt t).map (crowned color b.self t) else b.pieceAt t := by
  unfold promoteRow
  rw [promoteColumns_pieceAt hb]
  by_cases hon : t.onBoard = true
  · have hcolumn : t.column ∈ (List.range 8).map Int.ofNat := by
      rw [onBoard_iff] at hon
      refine List.mem_map.mpr ⟨t.column.toNat, List.mem_range.mpr (by omega), ?_⟩
      exact Int.toNat_of_nonneg hon.2.1
    simp only [hcolumn, and_true]
  · have hnone : b.pieceAt t = none := if_neg hon
    rw [hnone]
    simp

theorem promoteRow_self (color : Color) (row : Int) (b : Board) :
    (promoteRow color row b).self = b.self :=
  promoteRow_rule (P := fun x => x.self = b.self)
    (fun x s hx => (promote_self color x s).trans hx) row rfl

/-- Behind the sweep, the pawns in their last rows are queens, and all else is as it was. -/
theorem checkPawns_pieceAt (hb : WellPlaced b) : (checkPawns b).pieceAt t =
    (b.pieceAt t).map fun piece =>
      if piece.type = .pawn ∧ t.row = lastRow piece.color then
        ⟨.queen, piece.color, t, b.self⟩
      else piece := by
  have hwhite : WellPlaced (promoteRow .white 0 b) :=
    promoteRow_rule (P := WellPlaced) (fun _ s hx => promote_wellPlaced hx .white s) 0 hb
  unfold checkPawns
  rw [promoteRow_pieceAt hwhite, promoteRow_pieceAt hb, promoteRow_self]
  cases b.pieceAt t with
  | none => simp
  | some piece =>
    obtain ⟨type, color, square, parent⟩ := piece
    unfold crowned
    cases color with
    | white =>
      by_cases hrow : t.row = 0
      · by_cases htype : type = .pawn <;> simp [lastRow, hrow, htype]
      · by_cases hlast : t.row = 7 <;> simp [lastRow, hlast, hrow]
    | black =>
      by_cases hrow : t.row = 7
      · by_cases htype : type = .pawn <;> simp [lastRow, hrow, htype]
      · by_cases hfirst : t.row = 0 <;> simp [lastRow, hfirst, hrow]

end Sweep

/-! ## A move on the board -/

/-- What holds of the board of a match between two calls: the pieces know where they stand, and no
    pawn stands in its last row. -/
structure BoardInvariant (b : Board) : Prop where
  wellPlaced : WellPlaced b
  promoted : ∀ color s, s.row = lastRow color → NoPawn color b s

/-- A piece as it is on the square it moves to. -/
def arrived (b : Board) (piece : Piece) (t : Square) : Piece :=
  if piece.type = .pawn ∧ t.row = lastRow piece.color then ⟨.queen, piece.color, t, b.self⟩
  else { piece with square := t }

/-- A move, as it is seen on the board: two squares differ, and what is captured is kept. -/
structure Moves (m next : Match) (piece : Piece) (move : Move) : Prop where
  source : next.board.pieceAt move.fromSquare = none
  target : next.board.pieceAt move.toSquare = some (arrived m.board piece move.toSquare)
  elsewhere : ∀ s, s ≠ move.fromSquare → s ≠ move.toSquare →
    next.board.pieceAt s = m.board.pieceAt s
  captured : next.captured = m.captured ++ (m.board.pieceAt move.toSquare).toList

theorem Sound.boardInvariant {m : Match} (hm : Sound m) : BoardInvariant m.board :=
  ⟨hm.wellPlaced, hm.promoted⟩

section Board

variable {m : Match} {player : Role} {move : Move} {piece : Piece} {target : Option Piece}
  {s : Square}

/-- The board before the sweep. -/
theorem moved_pieceAt (hb : WellPlaced m.board) (h : Accepts m player move piece target) :
    ((m.capture target).board.move piece move.toSquare).pieceAt s =
      if s = move.fromSquare then none
      else if s = move.toSquare then some { piece with square := move.toSquare }
      else m.board.pieceAt s := by
  have hsquare : piece.square = move.fromSquare := hb.square_eq h.source
  unfold Board.move
  rw [hsquare]
  split
  · rename_i hfrom
    rw [hfrom, pieceAt_put_self (onBoard_of_pieceAt h.source)]
  · rename_i hfrom
    rw [pieceAt_put_of_ne hfrom]
    split
    · rename_i hto
      rw [hto, pieceAt_put_self (onBoard_of_mem h.reaches)]
    · rename_i hto
      rw [pieceAt_put_of_ne hto]
      have htarget := h.target_eq
      cases target with
      | none => rfl
      | some other =>
        show (m.board.put other.square none).pieceAt s = _
        rw [hb.square_eq htarget.symm, pieceAt_put_of_ne hto]

/-- The board after a move. -/
theorem boardAfter_pieceAt (hb : BoardInvariant m.board)
    (h : Accepts m player move piece target) :
    (boardAfter m piece target move.toSquare).pieceAt s =
      if s = move.fromSquare then none
      else if s = move.toSquare then some (arrived m.board piece move.toSquare)
      else m.board.pieceAt s := by
  obtain ⟨hcapture, hself, hsource, -⟩ := capture_board hb.wellPlaced h
  have hmoved : WellPlaced ((m.capture target).board.move piece move.toSquare) :=
    hcapture.move (hcapture.parent_eq hsource) (onBoard_of_mem h.reaches)
  have hmovedSelf : ((m.capture target).board.move piece move.toSquare).self = m.board.self := hself
  unfold boardAfter
  rw [checkPawns_pieceAt hmoved, moved_pieceAt hb.wellPlaced h, hmovedSelf]
  split
  · rfl
  · split
    · rename_i hto
      rw [Option.map_some, hto]
      rfl
    · -- no other pawn stands in its last row
      cases hpiece : m.board.pieceAt s with
      | none => rfl
      | some other =>
        rw [Option.map_some, if_neg]
        rintro ⟨htype, hrow⟩
        exact hb.promoted other.color s hrow other hpiece ⟨htype, rfl⟩

theorem play_moves (hb : BoardInvariant m.board) (h : Accepts m player move piece target) :
    Moves m (m.play piece target move.toSquare) piece move := by
  obtain ⟨winnerColor, isOver, heq, -⟩ := play_eq m piece target move.toSquare
  rw [heq]
  refine ⟨?_, ?_, ?_, ?_⟩
  · exact (boardAfter_pieceAt hb h).trans (if_pos rfl)
  · refine (boardAfter_pieceAt hb h).trans ?_
    rw [if_neg h.moves.symm, if_pos rfl]
  · intro s hfrom hto
    refine (boardAfter_pieceAt hb h).trans ?_
    rw [if_neg hfrom, if_neg hto]
  · rw [← h.target_eq]
    cases target with
    | none => exact (List.append_nil _).symm
    | some other => rfl

end Board

/-! ## Turns of the computer -/

section Computer

variable {m : Match} {ai : AIPlayer} {random random' : List Nat}

theorem afterMove_accepted {again : Match → Role → Move → List Nat → Option Outcome}
    {out : Outcome} (hagain : ∀ {m : Match} {move random out piece target}, WellPlaced m.board →
      m.checkMove .guest move = .ok (piece, target) → again m .guest move random = some out →
      out.thrown = none)
    (hb : WellPlaced m.board) (hready : m.isReady = true) (hundecided : m.winnerColor = none)
    (h : m.afterMove again random = some out) : out.thrown = none := by
  unfold afterMove at h
  split at h
  case h_1 =>
    obtain ⟨_, -, rfl⟩ := Option.map_eq_some_iff.mp h
    rfl
  case h_2 =>
    obtain ⟨_, -, rfl⟩ := Option.map_eq_some_iff.mp h
    rfl
  case h_3 hkind =>
    obtain ⟨⟨next, random'⟩, hnext, h⟩ := Option.bind_eq_some_iff.mp h
    obtain ⟨turn, columns, heq, -, hcan⟩ := nextTurn_spec hnext
    dsimp only at h
    split at h
    · rename_i hturn
      split at h
      · rename_i ai hguest
        obtain ⟨⟨chosen, board, random''⟩, hchoose, h⟩ := Option.bind_eq_some_iff.mp h
        have hboard : WellPlaced next.board := by
          rw [heq]
          exact hb
        have hcomputer : ComputersTurn next ai := by
          refine ⟨?_, ?_, hguest, hturn.1, hcan⟩
          · rw [heq]
            exact hready
          · rw [heq]
            exact hundecided
        obtain ⟨rfl, move, piece, target, rfl, hcheck⟩ := hcomputer.chooses hboard hchoose
        exact hagain hboard hcheck h
      · exact nomatch h
    · obtain rfl := Option.some.inj h
      rfl

/-- A move that passes the checks is made, and no move that the computer makes behind it is
    refused. -/
theorem makeMoveWithin_accepted {fuel : Nat} {player : Role} {move : Move} {out : Outcome}
    {piece : Piece} {target : Option Piece} (hb : WellPlaced m.board)
    (hcheck : m.checkMove player move = .ok (piece, target))
    (hout : makeMoveWithin fuel m player move random = some out) : out.thrown = none := by
  induction fuel generalizing m player move random piece target out with
  | zero => exact nomatch hout
  | succ fuel ih =>
    have haccepts := checkMove_ok hcheck
    unfold makeMoveWithin at hout
    rw [hcheck] at hout
    dsimp only at hout
    obtain ⟨winnerColor, isOver, heq, hwin⟩ := play_eq m piece target move.toSquare
    split at hout
    · obtain rfl := Option.some.inj hout
      rfl
    · rename_i hking
      obtain ⟨-, hopen, -⟩ := hwin.resolve_left fun hwon => hking hwon.1
      refine afterMove_accepted (fun hb hcheck hout => ih hb hcheck hout) ?_ ?_ ?_ hout
      · rw [heq]
        exact boardAfter_wellPlaced hb haccepts
      · rw [heq]
        exact haccepts.ready
      · rw [heq]
        exact hopen.trans haccepts.undecided

end Computer

/-! ## The next turn -/

/-- The loop that `afterMove` begins with. -/
def Match.handOver (m : Match) (random : List Nat) : Option (Match × List Nat) :=
  if m.kind = .null then m.rerollUntilCanMove random else m.nextTurn random

/-- The loop of `afterMove` can end: there are random numbers with which it does. -/
def LoopEnds (m : Match) : Prop := ∃ random out, m.handOver random = some out

section Turns

variable {m : Match} {player : Role} {move : Move} {random : List Nat} {piece : Piece}
  {target : Option Piece}

/-- `afterMove` goes through that loop, and in a match of humans or against nobody there is nothing
    behind it. -/
theorem afterMove_handOver {again : Match → Role → Move → List Nat → Option Outcome} :
    (∀ out, m.afterMove again random = some out → ∃ next, m.handOver random = some next) ∧
      (m.kind ≠ .ai → m.afterMove again random =
        (m.handOver random).map fun (m, random) => ⟨m, random, none⟩) := by
  unfold Match.afterMove Match.handOver
  cases hkind : m.kind with
  | human => exact ⟨fun out h => (Option.map_eq_some_iff.mp h).imp fun _ h => h.1, fun _ => rfl⟩
  | null => exact ⟨fun out h => (Option.map_eq_some_iff.mp h).imp fun _ h => h.1, fun _ => rfl⟩
  | ai =>
    refine ⟨fun out h => ?_, fun hne => absurd rfl hne⟩
    obtain ⟨next, hnext, -⟩ := Option.bind_eq_some_iff.mp h
    exact ⟨next, hnext⟩

/-- A move that captures a king is all that the call does. -/
theorem makeMove_king (hcheck : m.checkMove player move = .ok (piece, target))
    (hking : target.any (fun other => other.type = .king) = true) :
    m.makeMove player move random =
      some ⟨m.play piece target move.toSquare, random, none⟩ := by
  unfold Match.makeMove makeMoveWithin
  rw [hcheck]
  exact if_pos hking

/-- Behind any other move there is, in a `HumanMatch`, the loop of the next turn. -/
theorem makeMove_handOver (hkind : m.kind = .human)
    (hcheck : m.checkMove player move = .ok (piece, target))
    (hking : target.any (fun other => other.type = .king) = false) :
    m.makeMove player move random = ((m.play piece target move.toSquare).handOver random).map
      fun (m, random) => ⟨m, random, none⟩ := by
  obtain ⟨winnerColor, isOver, heq, -⟩ := play_eq m piece target move.toSquare
  have hplayed : (m.play piece target move.toSquare).kind ≠ .ai := by
    rw [heq]
    show m.kind ≠ .ai
    rw [hkind]
    decide
  unfold Match.makeMove makeMoveWithin
  rw [hcheck]
  dsimp only
  rw [hking, if_neg Bool.false_ne_true]
  exact afterMove_handOver.2 hplayed

/-- In a `HumanMatch` the call returns for some random numbers if the move captures a king, or if
    the loop of the next turn can end. -/
theorem makeMove_returns (hkind : m.kind = .human)
    (hcheck : m.checkMove player move = .ok (piece, target)) :
    (∃ random out, m.makeMove player move random = some out) ↔
      target.any (fun other => other.type = .king) = true ∨
        LoopEnds (m.play piece target move.toSquare) := by
  cases hking : target.any fun other => other.type = .king with
  | true => exact iff_of_true ⟨[], _, makeMove_king hcheck hking⟩ (Or.inl rfl)
  | false =>
    rw [or_iff_right Bool.false_ne_true]
    constructor
    · rintro ⟨random, out, hout⟩
      rw [makeMove_handOver hkind hcheck hking] at hout
      obtain ⟨next, hnext, -⟩ := Option.map_eq_some_iff.mp hout
      exact ⟨random, next, hnext⟩
    · rintro ⟨random, next, hnext⟩
      refine ⟨random, ⟨next.1, next.2, none⟩, ?_⟩
      rw [makeMove_handOver hkind hcheck hking, hnext]
      rfl

end Turns

/-! ## Calls -/

/-- A call with its messages throws a `ChessError`. -/
def Throws (m : Match) (player : Role) (move : Move) (random : List Nat) : Prop :=
  ∃ out sent what, m.makeMoveSending player move random = some (out, sent) ∧
    out.thrown = some (.chessError what)

section Calls

variable {m : Match} {player : Role} {move : Move} {random : List Nat} {out : Outcome}
  {sent : List Notice} {piece : Piece} {target : Option Piece}

/-- A move that is refused is all that the call does. -/
theorem makeMoveSending_error {what : Bytes} (h : m.checkMove player move = .error what) :
    m.makeMoveSending player move random =
      some (⟨m, random, some (.chessError what)⟩, []) := by
  unfold makeMoveSending makeMoveNoting
  rw [h]

/-- A `ChessError` comes from the checks. -/
theorem throws_iff (hb : WellPlaced m.board) :
    Throws m player move random ↔ ∃ what, m.checkMove player move = .error what := by
  constructor
  · rintro ⟨out, sent, what, hcall, hthrown⟩
    cases hcheck : m.checkMove player move with
    | error what => exact ⟨what, rfl⟩
    | ok x =>
      obtain ⟨piece, target⟩ := x
      have hnone := makeMoveWithin_accepted hb hcheck (makeMoveSending_outcome hcall)
      exact nomatch hnone.symm.trans hthrown
  · rintro ⟨what, hcheck⟩
    exact ⟨_, _, what, makeMoveSending_error hcheck, rfl⟩

/-- In a `HumanMatch` the next turn is all that follows a move. -/
theorem makeMove_moves (hb : BoardInvariant m.board) (hkind : m.kind = .human)
    (hcheck : m.checkMove player move = .ok (piece, target))
    (hout : m.makeMove player move random = some out) : Moves m out.left piece move := by
  have hmoves := play_moves hb (checkMove_ok hcheck)
  obtain ⟨winnerColor, isOver, heq, -⟩ := play_eq m piece target move.toSquare
  cases hking : target.any fun other => other.type = .king with
  | true =>
    rw [makeMove_king hcheck hking] at hout
    obtain rfl := Option.some.inj hout
    exact hmoves
  | false =>
    have hkind' : (m.play piece target move.toSquare).kind ≠ .null := by
      rw [heq]
      show m.kind ≠ .null
      rw [hkind]
      decide
    rw [makeMove_handOver hkind hcheck hking] at hout
    obtain ⟨⟨next, random'⟩, hnext, rfl⟩ := Option.map_eq_some_iff.mp hout
    unfold Match.handOver at hnext
    rw [if_neg hkind'] at hnext
    obtain ⟨turn, columns, rfl, -⟩ := nextTurn_spec hnext
    exact ⟨hmoves.source, hmoves.target, hmoves.elsewhere, hmoves.captured⟩

/-- A `ChessError` leaves the match as it was, and nothing has been sent. Where none is thrown, the
    move is one that the player may make, and in a `HumanMatch` it is all that is seen on the
    board, before the next turn and when the call returns. It does return if a king is captured,
    and otherwise for some random numbers exactly if the loop of the next turn can end. -/
theorem makeMove_atomic (hb : BoardInvariant m.board) (player : Role) (move : Move)
    (random : List Nat) :
    (∀ out sent what, m.makeMoveSending player move random = some (out, sent) →
      out.thrown = some (.chessError what) → out.left = m ∧ sent = []) ∧
    (¬Throws m player move random →
      ∃ piece, Accepts m player move piece (m.board.pieceAt move.toSquare) ∧
        (m.kind = .human →
          Moves m (m.play piece (m.board.pieceAt move.toSquare) move.toSquare) piece move ∧
          (∀ out sent, m.makeMoveSending player move random = some (out, sent) →
            Moves m out.left piece move) ∧
          ((m.board.pieceAt move.toSquare).any (fun other => other.type = .king) = true →
            ∃ out sent, m.makeMoveSending player move random = some (out, sent)) ∧
          ((∃ random out sent, m.makeMoveSending player move random = some (out, sent)) ↔
            (m.board.pieceAt move.toSquare).any (fun other => other.type = .king) = true ∨
              LoopEnds (m.play piece (m.board.pieceAt move.toSquare) move.toSquare)))) := by
  constructor
  · intro out sent what hcall hthrown
    obtain ⟨what', hcheck⟩ := (throws_iff hb.wellPlaced).mp ⟨out, sent, what, hcall, hthrown⟩
    rw [makeMoveSending_error hcheck] at hcall
    obtain ⟨rfl, rfl⟩ := Prod.mk.inj (Option.some.inj hcall)
    exact ⟨rfl, rfl⟩
  · intro hnot
    cases hcheck : m.checkMove player move with
    | error what => exact absurd ((throws_iff hb.wellPlaced).mpr ⟨what, hcheck⟩) hnot
    | ok x =>
      obtain ⟨piece, target⟩ := x
      have haccepts := checkMove_ok hcheck
      obtain rfl := haccepts.target_eq
      refine ⟨piece, haccepts, fun hkind => ⟨play_moves hb haccepts, ?_, fun hking => ?_, ?_⟩⟩
      · exact fun out sent hcall =>
          makeMove_moves hb hkind hcheck (makeMoveSending_outcome hcall)
      · exact makeMoveSending_returns.mpr ⟨_, makeMove_king hcheck hking⟩
      · rw [← makeMove_returns hkind hcheck]
        exact exists_congr fun random => makeMoveSending_returns

/-- Two players at the start. -/
def twoPlayers : Match :=
  { Match.new .human (ascii "a") false 1 .white (some (.human 2)) 0 with
    host := some (.human 1)
    columns := [0] }

theorem start_boardInvariant (address : Nat) :
    BoardInvariant (placePieces { self := address, pieces := fun _ => none }) :=
  ⟨placePieces_wellPlaced _, fun _ _ hrow => placePieces_noPawn _ hrow⟩

/-- The pawn in the first column moves two squares, and the call returns. -/
theorem makeMove_atomic_start :
    ∃ piece out sent,
      Accepts twoPlayers .host ⟨⟨6, 0⟩, ⟨4, 0⟩⟩ piece (twoPlayers.board.pieceAt ⟨4, 0⟩) ∧
      twoPlayers.makeMoveSending .host ⟨⟨6, 0⟩, ⟨4, 0⟩⟩ [0, 1] = some (out, sent) ∧
      Moves twoPlayers out.left piece ⟨⟨6, 0⟩, ⟨4, 0⟩⟩ := by
  have hreturns : (twoPlayers.makeMoveSending .host ⟨⟨6, 0⟩, ⟨4, 0⟩⟩ [0, 1]).isSome = true := by
    decide
  have hthrows : (twoPlayers.makeMoveSending .host ⟨⟨6, 0⟩, ⟨4, 0⟩⟩ [0, 1]).all
      (fun x => x.1.thrown.isNone) = true := by
    decide
  obtain ⟨⟨out, sent⟩, hcall⟩ := Option.isSome_iff_exists.mp hreturns
  rw [hcall, Option.all_some, Option.isNone_iff_eq_none] at hthrows
  obtain ⟨piece, haccepts, hmoves⟩ :=
    (makeMove_atomic (start_boardInvariant 0) .host ⟨⟨6, 0⟩, ⟨4, 0⟩⟩ [0, 1]).2 (by
      rintro ⟨out', sent', what, hcall', hthrown⟩
      obtain ⟨rfl, -⟩ := Prod.mk.inj (Option.some.inj (hcall.symm.trans hcall'))
      exact nomatch hthrows.symm.trans hthrown)
  exact ⟨piece, out, sent, haccepts, hcall, (hmoves rfl).2.1 out sent hcall⟩

end Calls

/-! ## The moves of a computer player -/

section Candidates

variable {m : Match} {ai : AIPlayer} {b : Board} {color : Color} {columns : List Int}

theorem nodup_movesFrom (b : Board) (color : Color) (s : Square) : (b.movesFrom color s).Nodup := by
  unfold movesFrom
  split
  · exact List.nodup_nil
  · split
    · exact (nodup_canMoveTo b _).map fun t t' h => (Move.mk.inj h).2
    · exact List.nodup_nil

/-- Moves from different squares are different. -/
theorem disjoint_movesFrom (hb : WellPlaced b) {s t : Square} (hst : s ≠ t) :
    (b.movesFrom color s).Disjoint (b.movesFrom color t) := by
  intro move hs ht
  exact hst (((mem_movesFrom hb).mp hs).1.symm.trans ((mem_movesFrom hb).mp ht).1)

theorem nodup_allMoves (hb : WellPlaced b) : (b.allMoves color).Nodup := by
  unfold allMoves
  refine List.nodup_flatMap.mpr ⟨fun s _ => nodup_movesFrom b color s, ?_⟩
  exact nodup_squares.imp fun hst => disjoint_movesFrom hb hst

theorem nodup_getPossibleMoves (hb : WellPlaced b) (hcolumns : columns.Nodup) :
    (getPossibleMoves b color columns).Nodup := by
  unfold getPossibleMoves
  refine List.nodup_flatMap.mpr ⟨fun column _ => ?_, ?_⟩
  · refine List.nodup_flatMap.mpr ⟨fun row _ => nodup_movesFrom b color _, ?_⟩
    refine List.nodup_range.imp fun hrows => disjoint_movesFrom hb ?_
    exact fun heq => hrows (Int.ofNat.inj (Square.mk.inj heq).1)
  · refine hcolumns.imp ?_
    intro column column' hne move hmove hmove'
    obtain ⟨row, -, hmove⟩ := List.mem_flatMap.mp hmove
    obtain ⟨row', -, hmove'⟩ := List.mem_flatMap.mp hmove'
    refine disjoint_movesFrom hb (fun heq => hne ?_) hmove hmove'
    exact (Square.mk.inj heq).2

/-- Both kinds of computer player look at the same moves. -/
theorem candidates_perm (hb : WellPlaced b) (hcolumns : columns.Nodup) :
    (getPossibleMoves b color columns).Perm
      ((b.allMoves color).filter fun move => columns.contains move.fromSquare.column) := by
  refine (List.perm_ext_iff_of_nodup (nodup_getPossibleMoves hb hcolumns)
    ((nodup_allMoves hb).filter _)).mpr fun move => ?_
  rw [mem_getPossibleMoves hb, mem_legal hb]

/-- With a random number to take, a computer player that has a move returns. -/
theorem chooseMove_returns (hb : WellPlaced b) {move : Move}
    (hmove : HasMove b color columns move) (ai : AIPlayer) (n : Nat) (random : List Nat) :
    ∃ result, ai.chooseMove b color columns (n :: random) = some result := by
  unfold AIPlayer.chooseMove
  cases ai with
  | cccp => exact ⟨_, rfl⟩
  | cccp2 => exact ⟨_, rfl⟩
  | random =>
    have hne : getPossibleMoves b color columns ≠ [] :=
      List.ne_nil_of_mem ((mem_getPossibleMoves hb).mpr hmove)
    have hindex := Nat.mod_lt n (List.length_pos_iff.mpr hne)
    unfold RandomPlayer.chooseMove
    dsimp only
    rw [if_neg hne, List.getElem?_eq_getElem hindex]
    exact ⟨_, rfl⟩

/-- On its turn a computer player returns a move that `makeMove` accepts, and leaves the board as it
    was; and both ways to list its moves list the same. -/
theorem chooseMove_accepted (h : ComputersTurn m ai) (hb : WellPlaced m.board)
    (hcolumns : m.columns.Nodup) (n : Nat) (random : List Nat) :
    (∃ move rest,
      ai.chooseMove m.board m.currentTurn m.columns (n :: random) =
          some (.ok move, m.board, rest) ∧
        (∃ piece target, m.checkMove .guest move = .ok (piece, target)) ∧
        ∀ others out, m.makeMove .guest move others = some out → out.thrown = none) ∧
      (getPossibleMoves m.board m.currentTurn m.columns).Perm
        ((m.board.allMoves m.currentTurn).filter fun move =>
          m.columns.contains move.fromSquare.column) := by
  refine ⟨?_, candidates_perm hb hcolumns⟩
  obtain ⟨some', hsome⟩ := hasMove_of_canMove h.canMove
  obtain ⟨⟨chosen, board, rest⟩, hchoose⟩ := chooseMove_returns hb hsome ai n random
  obtain ⟨rfl, move, piece, target, rfl, hcheck⟩ := h.chooses hb hchoose
  refine ⟨move, rest, hchoose, ⟨piece, target, hcheck⟩, fun others out hout => ?_⟩
  exact makeMoveWithin_accepted hb hcheck hout

/-- A match against the computer, on its first turn. -/
def computersFirst : Match :=
  { Match.new .ai (ascii "a") false 1 .white (some (.ai .cccp)) 0 with
    host := some (.human 1)
    currentTurn := .black
    columns := [0] }

theorem chooseMove_accepted_first :
    (∃ move rest, AIPlayer.chooseMove .cccp computersFirst.board computersFirst.currentTurn
          computersFirst.columns [0] = some (.ok move, computersFirst.board, rest) ∧
        (∃ piece target, computersFirst.checkMove .guest move = .ok (piece, target)) ∧
        ∀ others out, computersFirst.makeMove .guest move others = some out → out.thrown = none) ∧
      (getPossibleMoves computersFirst.board computersFirst.currentTurn
          computersFirst.columns).Perm
        ((computersFirst.board.allMoves computersFirst.currentTurn).filter fun move =>
          computersFirst.columns.contains move.fromSquare.column) := by
  have hcan : computersFirst.canMove = true := by decide
  have hturn : ComputersTurn computersFirst .cccp := ⟨rfl, rfl, rfl, by decide, hcan⟩
  have hboard : WellPlaced computersFirst.board := placePieces_wellPlaced _
  exact chooseMove_accepted hturn hboard (List.nodup_singleton 0) 0 []

end Candidates

end Algiz.ProbChess
