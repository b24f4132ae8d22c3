/-
  `Board` and the pieces on it.

  A piece knows its square and the board it is on (`parent`, an address), and the board's array
  says where it stands: the position is kept twice. `WellPlaced` is the agreement of the two. Every
  piece that is asked for its moves comes from the array of a well-placed board, so `parent->at` is
  `pieceAt` of that board, and the functions here take the board from their caller.

  `std::shared_ptr` shows in one place only: a piece that is moved keeps its identity. `move`
  therefore stores the piece with its new square, and callers that go on with the pointer go on
  with that piece.
-/
import Mathlib.Data.List.Sort
import Mathlib.Logic.Function.Basic
import Algiz.Lib.Counting

namespace Algiz.ProbChess

/-- `Color` -/
inductive Color where
  | black | white
  deriving DecidableEq

/-- `otherColor` -/
def otherColor : Color → Color
  | .white => .black
  | .black => .white

/-- `Square` -/
structure Square where
  row : Int
  column : Int
  deriving DecidableEq

namespace Square

/-- `Square::operator bool` -/
def onBoard (s : Square) : Bool := 0 ≤ s.row && s.row < 8 && 0 ≤ s.column && s.column < 8

/-- `operator+(std::pair<int, int>)`. The other shifts are this one with a zero in the pair. -/
def shift (s : Square) (rows columns : Int) : Square := ⟨s.row + rows, s.column + columns⟩

end Square

/-- `Piece::Type` -/
inductive PieceType where
  | bishop | king | knight | pawn | queen | rook
  deriving DecidableEq

/-- `Piece` -/
structure Piece where
  type : PieceType
  color : Color
  square : Square
  /-- the address of the board -/
  parent : Nat
  deriving DecidableEq

/-- `typeValue` -/
def PieceType.value : PieceType → Int
  | .bishop => 3
  | .king => 0
  | .knight => 3
  | .pawn => 1
  | .queen => 9
  | .rook => 5

/-- `Board`; its width and its height are 8. -/
structure Board where
  /-- the address of this board -/
  self : Nat
  pieces : Square → Option Piece

namespace Board

/-- The squares in row-major order. -/
def squares : List Square :=
  (List.range 8).flatMap fun row => (List.range 8).map fun column =>
    ⟨Int.ofNat row, Int.ofNat column⟩

/-- `Board::at` -/
def pieceAt (b : Board) (s : Square) : Option Piece := if s.onBoard then b.pieces s else none

/-- `pieces[row][column] = x`, for a square of the board. -/
def put (b : Board) (s : Square) (x : Option Piece) : Board :=
  { b with pieces := Function.update b.pieces s x }

/-- `Board::set` -/
def set (b : Board) (type : PieceType) (color : Color) (s : Square) : Board :=
  b.put s (some ⟨type, color, s, b.self⟩)

/-- `Board::erase` -/
def erase (b : Board) (piece : Piece) : Board := b.put piece.square none

/-- `Board::move`. The array entry of the old square is cleared after the new one is set. -/
def move (b : Board) (piece : Piece) (square : Square) : Board :=
  (b.put square (some { piece with square := square })).put piece.square none

/-- `Board::operator=`: clones of the other board's pieces, on this board. -/
def assign (b other : Board) : Board :=
  { b with pieces := fun s => (other.pieceAt s).map fun piece => { piece with parent := b.self } }

/-- The copy constructor; the new board is at `address`. -/
def copy (other : Board) (address : Nat) : Board :=
  assign { self := address, pieces := fun _ => none } other

/-! ## Where pieces can move -/

/-- The squares in one direction, up to the first that is occupied. -/
def slide (b : Board) (rows columns : Int) : Nat → Square → List Square
  | 0, _ => []
  | n + 1, s =>
    let next := s.shift rows columns
    if !next.onBoard then []
    else if (b.pieceAt next).isSome then [next]
    else next :: slide b rows columns n next

/-- The slides in several directions. -/
def slides (b : Board) (directions : List (Int × Int)) (s : Square) : List Square :=
  directions.flatMap fun d => slide b d.1 d.2 7 s

def diagonals : List (Int × Int) := [(1, 1), (1, -1), (-1, -1), (-1, 1)]

def straights : List (Int × Int) := [(-1, 0), (1, 0), (0, -1), (0, 1)]

def kingSteps : List (Int × Int) :=
  [(-1, 0), (-1, 1), (0, 1), (1, 1), (1, 0), (1, -1), (0, -1), (-1, -1)]

def knightSteps : List (Int × Int) :=
  [(-2, -1), (-2, 1), (-1, 2), (1, 2), (2, 1), (2, -1), (1, -2), (-1, -2)]

/-- The squares a pawn can move to, before they are filtered. -/
def pawnMoves (b : Board) (color : Color) (s : Square) : List Square :=
  let forward : Int := if color = .black then 1 else -1
  let next := s.shift forward 0
  let ahead := next.shift forward 0
  let firstMove := (s.row = 1 ∧ color = .black) ∨ (s.row = 6 ∧ color = .white)
  let left := next.shift 0 (-1)
  let right := left.shift 0 2
  (if (b.pieceAt next).isNone then
      next :: (if firstMove ∧ (b.pieceAt ahead).isNone then [ahead] else [])
    else []) ++
  (if (b.pieceAt left).isSome then [left] else []) ++
  (if (b.pieceAt right).isSome then [right] else [])

/-- `Piece::filter`: off the board, or onto a piece of its own. -/
def allowed (b : Board) (color : Color) (s : Square) : Bool :=
  s.onBoard && !(b.pieceAt s).any fun other => other.color = color

/-- `canMoveTo` -/
def canMoveTo (b : Board) (piece : Piece) : List Square :=
  let moves := match piece.type with
    | .bishop => b.slides diagonals piece.square
    | .king => kingSteps.map fun d : Int × Int => piece.square.shift d.1 d.2
    | .knight => knightSteps.map fun d : Int × Int => piece.square.shift d.1 d.2
    | .pawn => b.pawnMoves piece.color piece.square
    | .queen => b.slides (diagonals ++ straights) piece.square
    | .rook => b.slides straights piece.square
  moves.filter (b.allowed piece.color)

/-! ## Attacks -/

/-- `Board::isAttacked`. While it looks, a rook of the other color stands on the square; the array
    is as before when it returns. -/
def isAttacked (b : Board) (color : Color) (s : Square) : Bool :=
  let b := b.set .rook (otherColor color) s
  squares.any fun s' => (b.pieceAt s').any fun piece =>
    piece.color = color && (b.canMoveTo piece).contains s

/-- `Board::findKing`; `none` is `NoKingError`. -/
def findKing (b : Board) (color : Color) : Option Piece :=
  squares.findSome? fun s => (b.pieceAt s).filter fun piece =>
    piece.color = color && piece.type = .king

/-- `Board::isInCheck` -/
def isInCheck (b : Board) (color : Color) : Bool :=
  match b.findKing color with
  | none => false
  | some king => b.isAttacked color king.square

/-- The loop of `isCheckmated` over the king's moves. `king` is the pointer: after a move that is
    taken back it is a piece that is no longer on the board. -/
def isCheckmatedLoop (color : Color) (old : Board) (oldSquare : Square) :
    List Square → Piece → Board → Bool × Board
  | [], _, b => (true, b)
  | s :: rest, king, b =>
    let b := b.move king s
    if !b.isAttacked color s then (false, b)
    else isCheckmatedLoop color old oldSquare rest { king with square := oldSquare } (b.assign old)

/-- `Board::isCheckmated`, and the board it leaves. `address` is where it keeps its copy. -/
def isCheckmated (b : Board) (address : Nat) (color : Color) : Bool × Board :=
  match b.findKing color with
  | none => (true, b)
  | some king =>
    if !b.isAttacked color king.square then (false, b)
    else isCheckmatedLoop color (b.copy address) king.square (b.canMoveTo king) king b

/-- `Board::placePieces` -/
def placePieces (b : Board) : Board :=
  let backRow : List PieceType :=
    [.rook, .knight, .bishop, .queen, .king, .bishop, .knight, .rook]
  let row (b : Board) (color : Color) (row : Int) : Board :=
    backRow.zipIdx.foldl (fun b x => b.set x.1 color ⟨row, Int.ofNat x.2⟩) b
  let b := row { b with pieces := fun _ => none } .black 0
  let b := row b .white 7
  (List.range 8).foldl
    (fun b column => (b.set .pawn .black ⟨1, Int.ofNat column⟩).set .pawn .white
      ⟨6, Int.ofNat column⟩) b

/-- How many pieces on the board have the property. -/
def count (b : Board) (p : Piece → Bool) : Nat := squares.countP fun s => (b.pieceAt s).any p

end Board

example : (({ self := 0, pieces := fun _ => none } : Board).placePieces.canMoveTo
    ⟨.knight, .white, ⟨7, 1⟩, 0⟩) = [⟨5, 0⟩, ⟨5, 2⟩] := by decide

/-! ## What the operations do to the squares -/

section Squares

open Board

variable {b : Board} {s t : Square}

theorem mem_squares : s ∈ squares ↔ s.onBoard = true := by
  unfold squares Square.onBoard
  simp only [List.mem_flatMap, List.mem_range, List.mem_map, Bool.and_eq_true, decide_eq_true_eq]
  constructor
  · rintro ⟨row, hrow, column, hcolumn, rfl⟩
    simp only [Int.ofNat_eq_natCast]
    omega
  · rintro ⟨⟨⟨hr0, hr8⟩, hc0⟩, hc8⟩
    refine ⟨s.row.toNat, by omega, s.column.toNat, by omega, ?_⟩
    have hrow : Int.ofNat s.row.toNat = s.row := Int.toNat_of_nonneg hr0
    have hcolumn : Int.ofNat s.column.toNat = s.column := Int.toNat_of_nonneg hc0
    rw [hrow, hcolumn]

theorem nodup_squares : squares.Nodup := by decide

theorem pieceAt_of_onBoard (h : s.onBoard = true) : b.pieceAt s = b.pieces s := if_pos h

theorem onBoard_of_pieceAt {piece : Piece} (h : b.pieceAt s = some piece) : s.onBoard = true := by
  unfold pieceAt at h
  by_contra hoff
  rw [if_neg hoff] at h
  exact nomatch h

theorem pieces_of_pieceAt {piece : Piece} (h : b.pieceAt s = some piece) :
    b.pieces s = some piece := by
  rw [← pieceAt_of_onBoard (onBoard_of_pieceAt h), h]

@[simp] theorem pieces_put_self (x : Option Piece) : (b.put s x).pieces s = x :=
  Function.update_self ..

@[simp] theorem pieces_put_of_ne (h : t ≠ s) (x : Option Piece) :
    (b.put s x).pieces t = b.pieces t := Function.update_of_ne h ..

theorem pieceAt_put_self (h : s.onBoard = true) (x : Option Piece) :
    (b.put s x).pieceAt s = x := by
  rw [pieceAt_of_onBoard h, pieces_put_self]

theorem pieceAt_put_of_ne (h : t ≠ s) (x : Option Piece) :
    (b.put s x).pieceAt t = b.pieceAt t := by
  unfold pieceAt
  rw [pieces_put_of_ne h]

@[simp] theorem put_self (s : Square) (x : Option Piece) : (b.put s x).self = b.self := rfl

/-- Replacing what stands on a square changes a count by these two. -/
theorem count_put (p : Piece → Bool) (h : s.onBoard = true) (x : Option Piece) :
    (b.put s x).count p + ((b.pieceAt s).any p).toNat = b.count p + (x.any p).toNat := by
  have hcount := Lib.countP_update nodup_squares (mem_squares.mpr h)
    (p := fun t => ((b.put s x).pieceAt t).any p) (q := fun t => (b.pieceAt t).any p)
    fun t _ ht => by rw [pieceAt_put_of_ne ht]
  rw [pieceAt_put_self h] at hcount
  exact hcount

/-- Every piece on the board says so itself. -/
def WellPlaced (b : Board) : Prop :=
  ∀ s piece, b.pieces s = some piece →
    s.onBoard = true ∧ piece.square = s ∧ piece.parent = b.self

namespace WellPlaced

variable (hb : WellPlaced b)
include hb

theorem square_eq {piece : Piece} (h : b.pieceAt s = some piece) : piece.square = s :=
  (hb s piece (pieces_of_pieceAt h)).2.1

theorem parent_eq {piece : Piece} (h : b.pieceAt s = some piece) : piece.parent = b.self :=
  (hb s piece (pieces_of_pieceAt h)).2.2

theorem put_none (s : Square) : WellPlaced (b.put s none) := by
  intro t piece hpiece
  by_cases hts : t = s
  · subst hts
    rw [pieces_put_self] at hpiece
    exact nomatch hpiece
  · rw [pieces_put_of_ne hts] at hpiece
    exact hb t piece hpiece

theorem put_some (hs : s.onBoard = true) {piece : Piece} (hsquare : piece.square = s)
    (hparent : piece.parent = b.self) : WellPlaced (b.put s (some piece)) := by
  intro t other hother
  by_cases hts : t = s
  · subst hts
    rw [pieces_put_self, Option.some.injEq] at hother
    subst hother
    exact ⟨hs, hsquare, hparent⟩
  · rw [pieces_put_of_ne hts] at hother
    exact hb t other hother

theorem set (type : PieceType) (color : Color) (hs : s.onBoard = true) :
    WellPlaced (b.set type color s) := hb.put_some hs rfl rfl

theorem move {piece : Piece} (hparent : piece.parent = b.self) (hs : s.onBoard = true) :
    WellPlaced (b.move piece s) := by
  have hplaced : WellPlaced (b.put s (some { piece with square := s })) :=
    hb.put_some hs rfl hparent
  exact hplaced.put_none piece.square

/-- Restoring a well-placed board from a copy of it. -/
theorem assign_copy (other : Board) (hself : other.self = b.self) (address : Nat) :
    other.assign (b.copy address) = b := by
  obtain ⟨self, pieces⟩ := b
  obtain ⟨self', pieces'⟩ := other
  subst hself
  unfold assign copy assign
  congr 1
  funext s
  by_cases hs : s.onBoard = true
  · simp only [pieceAt_of_onBoard hs]
    cases hpiece : pieces s with
    | none => rfl
    | some piece =>
      have hparent : piece.parent = self' := (hb s piece hpiece).2.2
      simp only [Option.map_some, ← hparent]
  · cases hpiece : pieces s with
    | none => simp [pieceAt, hs]
    | some piece => exact absurd (hb s piece hpiece).1 hs

end WellPlaced

end Squares

end Algiz.ProbChess
