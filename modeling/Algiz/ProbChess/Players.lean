/-
  The computer players.

  `CCCPPlayer::chooseMove` tries every move on the match's own board. Trying one can leave the
  board changed (`isCheckmated` returns from inside its loop), and the board is then restored from
  a copy. What is left at the end is the board as it was, and the move chosen is one of those the
  player has in the columns (`AIPlayer.chooseMove_spec`).
-/
import Algiz.Lib.Scan
import Algiz.ProbChess.Board
import Algiz.Bytes

namespace Algiz.ProbChess

open Board

/-- `Move` -/
structure Move where
  fromSquare : Square
  toSquare : Square
  deriving DecidableEq

/-- What is thrown: `ChessError`, or another `std::runtime_error`. -/
inductive Thrown where
  | chessError (what : Bytes)
  | runtimeError (what : Bytes)
  deriving DecidableEq

/-- The class of a computer player. -/
inductive AIPlayer where
  | random | cccp | cccp2
  deriving DecidableEq

namespace Board

/-- The moves of the piece on a square, if it has the color. -/
def movesFrom (b : Board) (color : Color) (s : Square) : List Move :=
  match b.pieceAt s with
  | none => []
  | some piece =>
    if piece.color = color then (b.canMoveTo piece).map fun to' => ⟨piece.square, to'⟩ else []

/-- `Board::allMoves(Color)` -/
def allMoves (b : Board) (color : Color) : List Move := squares.flatMap (b.movesFrom color)

end Board

/-- `AIPlayer::getPossibleMoves` -/
def getPossibleMoves (b : Board) (color : Color) (columns : List Int) : List Move :=
  columns.flatMap fun column => (List.range 8).flatMap fun row =>
    b.movesFrom color ⟨Int.ofNat row, column⟩

/-- `CCCPPlayer::LabeledMove` -/
structure LabeledMove where
  move : Move
  isCheckmated : Bool
  isInCheck : Bool
  isSelfInCheck : Bool
  captured : Option Piece

/-- `CCCPPlayer::centerDistance` -/
def centerDistance (column : Int) : Int :=
  if column = 3 ∨ column = 4 then 0
  else if column = 2 ∨ column = 5 then 1
  else if column = 1 ∨ column = 6 then 2
  else 3

/-- `CCCPPlayer::moveCode` -/
def moveCode (move : Move) : Int :=
  let source := move.fromSquare.row * 8 + move.fromSquare.column
  let destination := move.toSquare.row * 8 + move.toSquare.column
  (source * 64 + destination) * 8

/-- The end of `checkSuperior`: depth, then the distance to the center, then the code. -/
def superiorSquare (currentTurn : Color) (check alternative : Move) : Bool :=
  if check.toSquare.row ≠ alternative.toSquare.row then
    if currentTurn = .black then check.toSquare.row ≤ alternative.toSquare.row
    else alternative.toSquare.row ≤ check.toSquare.row
  else
    let checkDistance := centerDistance check.toSquare.column
    let alternativeDistance := centerDistance alternative.toSquare.column
    if check.toSquare.column ≠ alternative.toSquare.column ∧ checkDistance ≠ alternativeDistance
    then alternativeDistance < checkDistance
    else moveCode check < moveCode alternative

/-- `checkSuperior`. With `spareSelf` a move that leaves its own king in check is put behind one
    that does not. -/
def checkSuperiorWith (spareSelf : Bool) (currentTurn : Color) (check alternative : LabeledMove) :
    Bool :=
  if check.isCheckmated ≠ alternative.isCheckmated then alternative.isCheckmated
  else if check.isInCheck ≠ alternative.isInCheck then alternative.isInCheck
  else if spareSelf ∧ check.isSelfInCheck ≠ alternative.isSelfInCheck then
    !alternative.isSelfInCheck
  else match check.captured, alternative.captured with
    | some _, none => false
    | none, some _ => true
    | some mine, some other =>
      if mine.type.value < other.type.value then true
      else superiorSquare currentTurn check.move alternative.move
    | none, none => superiorSquare currentTurn check.move alternative.move

/-- `CCCPPlayer::checkSuperior` -/
def CCCPPlayer.checkSuperior : Color → LabeledMove → LabeledMove → Bool := checkSuperiorWith false

/-- `CCCP2Player::checkSuperior` -/
def CCCP2Player.checkSuperior : Color → LabeledMove → LabeledMove → Bool := checkSuperiorWith true

/-- One move tried on the board, and the board that this leaves. The copy that `isCheckmated`
    keeps is two places behind the board, `chooseMove`'s own one place behind. -/
def tryMove (currentTurn : Color) (b : Board) (move : Move) : LabeledMove × Board :=
  let captured := b.pieceAt move.toSquare
  let moved := match b.pieceAt move.fromSquare with
    | none => b
    | some piece => b.move piece move.toSquare
  let isInCheck := moved.isInCheck (otherColor currentTurn)
  let (isCheckmated, left) := moved.isCheckmated (b.self + 2) (otherColor currentTurn)
  ({ move := move
     isCheckmated := isCheckmated
     isInCheck := isInCheck
     isSelfInCheck := left.isInCheck currentTurn
     captured := captured }, left)

/-- The loop of `CCCPPlayer::chooseMove`: the labeled moves and the board it leaves. -/
def tryMoves (currentTurn : Color) (old : Board) : List Move → Board → List LabeledMove × Board
  | [], b => ([], b)
  | move :: moves, b =>
    let (labeled, left) := tryMove currentTurn b move
    let (rest, last) := tryMoves currentTurn old moves (left.assign old)
    (labeled :: rest, last)

/-- The best of the labeled moves. -/
def best (superior : LabeledMove → LabeledMove → Bool) (first : LabeledMove) :
    List LabeledMove → LabeledMove :=
  List.foldl (fun best next => if superior best next then next else best) first

/-- `CCCPPlayer::chooseMove`, with either `checkSuperior`. -/
def CCCPPlayer.chooseMove (superior : Color → LabeledMove → LabeledMove → Bool) (b : Board)
    (currentTurn : Color) (columns : List Int) : Except Thrown Move × Board :=
  let legal := (b.allMoves currentTurn).filter fun move => columns.contains move.fromSquare.column
  match tryMoves currentTurn (b.copy (b.self + 1)) legal b with
  | ([], left) => (.error (.runtimeError (ascii "No labeled moves found.")), left)
  | (first :: rest, left) => (.ok (best (superior currentTurn) first rest).move, left)

/-- `RandomPlayer::chooseMove`, and what is left of the random numbers; `none` if there is none
    to take. -/
def RandomPlayer.chooseMove (b : Board) (currentTurn : Color) (columns : List Int)
    (random : List Nat) : Option (Except Thrown Move × List Nat) :=
  let possibilities := getPossibleMoves b currentTurn columns
  if possibilities = [] then
    some (.error (.runtimeError (ascii "RandomBot has no moves to select from.")), random)
  else match random with
    | [] => none
    | n :: random =>
      match possibilities[n % possibilities.length]? with
      | none => none
      | some move => some (.ok move, random)

/-- `AIPlayer::chooseMove`: the move, the board that is left, and the random numbers that are
    left. -/
def AIPlayer.chooseMove (player : AIPlayer) (b : Board) (currentTurn : Color) (columns : List Int)
    (random : List Nat) : Option (Except Thrown Move × Board × List Nat) :=
  match player with
  | .random => (RandomPlayer.chooseMove b currentTurn columns random).map fun (move, random) =>
      (move, b, random)
  | .cccp =>
    let (move, left) := CCCPPlayer.chooseMove CCCPPlayer.checkSuperior b currentTurn columns
    some (move, left, random)
  | .cccp2 =>
    let (move, left) := CCCPPlayer.chooseMove CCCP2Player.checkSuperior b currentTurn columns
    some (move, left, random)

/-! ## What is left of the board -/

section Boards

variable {b : Board} {currentTurn : Color} {columns : List Int}

theorem isCheckmatedLoop_self (color : Color) (old : Board) (oldSquare : Square)
    (squares : List Square) (king : Piece) (b : Board) :
    (isCheckmatedLoop color old oldSquare squares king b).2.self = b.self := by
  induction squares generalizing king b with
  | nil => rfl
  | cons s rest ih =>
    unfold isCheckmatedLoop
    dsimp only
    split
    · rfl
    · rw [ih]
      rfl

theorem isCheckmated_self (b : Board) (address : Nat) (color : Color) :
    (b.isCheckmated address color).2.self = b.self := by
  unfold isCheckmated
  split
  · rfl
  · split
    · rfl
    · exact isCheckmatedLoop_self ..

theorem tryMove_self (currentTurn : Color) (b : Board) (move : Move) :
    (tryMove currentTurn b move).2.self = b.self := by
  unfold tryMove
  dsimp only
  rw [isCheckmated_self]
  cases b.pieceAt move.fromSquare <;> rfl

/-- However many moves are tried, the board is then as it was. -/
theorem tryMoves_board (currentTurn : Color) (hb : WellPlaced b) (address : Nat)
    (moves : List Move) :
    (tryMoves currentTurn (b.copy address) moves b).2 = b := by
  induction moves with
  | nil => rfl
  | cons move moves ih =>
    unfold tryMoves
    dsimp only
    rw [hb.assign_copy _ (tryMove_self currentTurn b move), ih]

theorem tryMove_move (currentTurn : Color) (b : Board) (move : Move) :
    (tryMove currentTurn b move).1.move = move := rfl

theorem tryMoves_moves (currentTurn : Color) (old : Board) (moves : List Move) (b : Board) :
    (tryMoves currentTurn old moves b).1.map LabeledMove.move = moves := by
  induction moves generalizing b with
  | nil => rfl
  | cons move moves ih =>
    unfold tryMoves
    dsimp only
    rw [List.map_cons, ih, tryMove_move]

theorem best_mem (superior : LabeledMove → LabeledMove → Bool) (first : LabeledMove)
    (rest : List LabeledMove) : best superior first rest ∈ first :: rest :=
  Lib.scan_mem

/-- The computer player has a move: its own piece stands in one of the columns and can move. -/
def HasMove (b : Board) (color : Color) (columns : List Int) (move : Move) : Prop :=
  ∃ piece, b.pieceAt move.fromSquare = some piece ∧ piece.color = color ∧
    move.fromSquare.column ∈ columns ∧ move.toSquare ∈ b.canMoveTo piece

theorem mem_movesFrom (hb : WellPlaced b) {color : Color} {s : Square} {move : Move} :
    move ∈ b.movesFrom color s ↔ move.fromSquare = s ∧
      ∃ piece, b.pieceAt s = some piece ∧ piece.color = color ∧
        move.toSquare ∈ b.canMoveTo piece := by
  unfold movesFrom
  cases hpiece : b.pieceAt s with
  | none => simp
  | some piece =>
    have hsquare := hb.square_eq hpiece
    by_cases hcolor : piece.color = color
    · simp only [if_pos hcolor, List.mem_map, hsquare]
      constructor
      · rintro ⟨square, hmem, rfl⟩
        exact ⟨rfl, piece, rfl, hcolor, hmem⟩
      · rintro ⟨hfrom, other, hother, -, hmem⟩
        obtain rfl := Option.some.inj hother
        exact ⟨move.toSquare, hmem, by rw [← hfrom]⟩
    · simp only [if_neg hcolor, List.not_mem_nil, Option.some.injEq, false_iff, not_and,
        not_exists]
      rintro - other rfl hother
      exact absurd hother hcolor

/-- The moves that `CCCPPlayer` looks at. -/
theorem mem_legal (hb : WellPlaced b) {move : Move} :
    move ∈ (b.allMoves currentTurn).filter (fun move => columns.contains move.fromSquare.column) ↔
      HasMove b currentTurn columns move := by
  rw [List.mem_filter, allMoves, List.mem_flatMap, List.contains_iff_mem]
  constructor
  · rintro ⟨⟨s, -, hmem⟩, hcolumn⟩
    obtain ⟨rfl, piece, hpiece, hcolor, hmoves⟩ := (mem_movesFrom hb).mp hmem
    exact ⟨piece, hpiece, hcolor, hcolumn, hmoves⟩
  · rintro ⟨piece, hpiece, hcolor, hcolumn, hmoves⟩
    refine ⟨⟨move.fromSquare, mem_squares.mpr (onBoard_of_pieceAt hpiece), ?_⟩, hcolumn⟩
    exact (mem_movesFrom hb).mpr ⟨rfl, piece, hpiece, hcolor, hmoves⟩

/-- The moves that `RandomPlayer` picks from. -/
theorem mem_getPossibleMoves (hb : WellPlaced b) {move : Move} :
    move ∈ getPossibleMoves b currentTurn columns ↔ HasMove b currentTurn columns move := by
  unfold getPossibleMoves
  simp only [List.mem_flatMap, List.mem_range]
  constructor
  · rintro ⟨column, hcolumn, row, -, hmem⟩
    obtain ⟨hfrom, piece, hpiece, hcolor, hmoves⟩ := (mem_movesFrom hb).mp hmem
    refine ⟨piece, hfrom ▸ hpiece, hcolor, ?_, hmoves⟩
    rw [hfrom]
    exact hcolumn
  · rintro ⟨piece, hpiece, hcolor, hcolumn, hmoves⟩
    have hon := mem_squares.mpr (onBoard_of_pieceAt hpiece)
    unfold squares at hon
    simp only [List.mem_flatMap, List.mem_range, List.mem_map] at hon
    obtain ⟨row, hrow, column, -, hsquare⟩ := hon
    refine ⟨move.fromSquare.column, hcolumn, row, hrow, ?_⟩
    refine (mem_movesFrom hb).mpr ⟨?_, piece, ?_, hcolor, hmoves⟩
    · rw [← hsquare]
    · rw [← hpiece, ← hsquare]

/-- If the player has a move at all, it chooses one, and leaves the board as it was. -/
theorem AIPlayer.chooseMove_spec (hb : WellPlaced b) {player : AIPlayer} {random random' : List Nat}
    {chosen : Except Thrown Move} {left : Board}
    (hchoose : player.chooseMove b currentTurn columns random = some (chosen, left, random'))
    {some' : Move} (hsome : HasMove b currentTurn columns some') :
    left = b ∧ ∃ move, chosen = .ok move ∧ HasMove b currentTurn columns move := by
  have hcccp : ∀ superior, (CCCPPlayer.chooseMove superior b currentTurn columns).2 = b ∧
      ∃ move, (CCCPPlayer.chooseMove superior b currentTurn columns).1 = .ok move ∧
        HasMove b currentTurn columns move := by
    intro superior
    have hmoves := tryMoves_moves currentTurn (b.copy (b.self + 1))
      ((b.allMoves currentTurn).filter fun move => columns.contains move.fromSquare.column) b
    have hboard := tryMoves_board currentTurn hb (b.self + 1)
      ((b.allMoves currentTurn).filter fun move => columns.contains move.fromSquare.column)
    unfold CCCPPlayer.chooseMove
    dsimp only
    split
    · rename_i left' htry
      rw [htry] at hmoves
      have hmem := (mem_legal hb).mpr hsome
      rw [← hmoves] at hmem
      exact absurd hmem List.not_mem_nil
    · rename_i first rest left' htry
      rw [htry] at hmoves hboard
      refine ⟨hboard, _, rfl, (mem_legal hb).mp ?_⟩
      rw [← hmoves]
      exact List.mem_map_of_mem (best_mem _ first rest)
  unfold AIPlayer.chooseMove at hchoose
  cases player with
  | random =>
    obtain ⟨⟨chosen', random''⟩, hrandom, heq⟩ := Option.map_eq_some_iff.mp hchoose
    obtain ⟨rfl, rfl, rfl⟩ := heq
    refine ⟨rfl, ?_⟩
    unfold RandomPlayer.chooseMove at hrandom
    dsimp only at hrandom
    have hne : getPossibleMoves b currentTurn columns ≠ [] :=
      List.ne_nil_of_mem ((mem_getPossibleMoves hb).mpr hsome)
    rw [if_neg hne] at hrandom
    split at hrandom
    · exact nomatch hrandom
    · split at hrandom
      · exact nomatch hrandom
      · rename_i move hmove
        obtain ⟨rfl, -⟩ := Prod.mk.inj (Option.some.inj hrandom)
        exact ⟨move, rfl, (mem_getPossibleMoves hb).mp (List.mem_of_getElem? hmove)⟩
  | cccp =>
    obtain ⟨rfl, rfl, -⟩ := Option.some.inj hchoose
    exact hcccp _
  | cccp2 =>
    obtain ⟨rfl, rfl, -⟩ := Option.some.inj hchoose
    exact hcccp _

end Boards

end Algiz.ProbChess
