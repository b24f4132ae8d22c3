/-
  `Board::getPieces`, which does not return.

  The inner loop is bounded by the column and counts up the row, so the column stays 0 and the row
  goes on until the counter overflows (`getPieces_overflows`). There is no board and no color for
  which a list comes out (`not_getsPieces`). `createMatch` and `joinMatch` call it when no piece can
  move, before a loop that cannot end then either, so what `Match.start` says of a match that is
  started holds with the call as well (`starts_iff`).
-/
import Mathlib.Algebra.Order.Ring.Int
import Algiz.Lib.Loop
import Algiz.ProbChess.Rerolls

namespace Algiz.ProbChess

open Match Board

namespace Board

/-- The two loops of `getPieces`: the counters, whether the inner loop is running, and `out`. -/
structure Listing where
  row : Int
  column : Int
  inner : Bool
  out : List Piece

/-- `++row`; `none` if it overflows. -/
def Listing.nextRow (s : Listing) : Listing ⊕ Option (List Piece) :=
  if s.row + 1 < 2 ^ 31 then .inl { s with row := s.row + 1 } else .inr none

/-- A turn of `getPieces`. Both loops count up the row. -/
def getPiecesTurn (b : Board) (color : Color) (s : Listing) : Listing ⊕ Option (List Piece) :=
  if s.inner then
    if s.column < 8 then
      let piece := (b.pieceAt ⟨s.row, s.column⟩).filter fun piece => piece.color = color
      { s with out := s.out ++ piece.toList }.nextRow
    else { s with inner := false }.nextRow
  else if s.row < 8 then .inl { s with column := 0, inner := true }
  else .inr (some s.out)

/-- `getPieces` returns these. -/
def GetsPieces (b : Board) (color : Color) (pieces : List Piece) : Prop :=
  Lib.Loop (b.getPiecesTurn color) ⟨0, 0, false, []⟩ (some pieces)

/-- The pieces of a color, in row-major order. -/
def piecesOf (b : Board) (color : Color) : List Piece :=
  squares.filterMap fun s => (b.pieceAt s).filter fun piece => piece.color = color

variable {b : Board} {color : Color}

/-- The pieces of a color are those that stand on a square and have it. -/
theorem mem_piecesOf {piece : Piece} :
    piece ∈ b.piecesOf color ↔ piece.color = color ∧ ∃ s, b.pieceAt s = some piece := by
  unfold piecesOf
  simp only [List.mem_filterMap, Option.filter_eq_some_iff, decide_eq_true_eq]
  constructor
  · rintro ⟨s, -, hpiece, hcolor⟩
    exact ⟨hcolor, s, hpiece⟩
  · rintro ⟨hcolor, s, hpiece⟩
    exact ⟨s, mem_squares.mpr (onBoard_of_pieceAt hpiece), hpiece, hcolor⟩

/-- Each of them is there once. -/
theorem nodup_piecesOf (hb : WellPlaced b) (color : Color) : (b.piecesOf color).Nodup := by
  refine nodup_squares.filterMap fun s t piece hs ht => ?_
  have hpiece := (Option.filter_eq_some_iff.mp hs).1
  have hother := (Option.filter_eq_some_iff.mp ht).1
  rw [← hb.square_eq hpiece, ← hb.square_eq hother]

/-- In the inner loop a turn takes the row to the next one, and the column stays. -/
theorem getPiecesTurn_inner (b : Board) (color : Color) {s : Listing} (hinner : s.inner = true)
    (hcolumn : s.column < 8) : ∃ out, b.getPiecesTurn color s = { s with out := out }.nextRow := by
  unfold getPiecesTurn
  rw [if_pos hinner, if_pos hcolumn]
  exact ⟨_, rfl⟩

/-- In the inner loop the row goes on to the largest number. -/
theorem loop_inner {s : Listing} (hinner : s.inner = true) (hcolumn : s.column < 8) {left : Nat}
    (hleft : s.row + Int.ofNat left = 2 ^ 31 - 1) : Lib.Loop (b.getPiecesTurn color) s none := by
  induction left generalizing s with
  | zero =>
    obtain ⟨out, hturn⟩ := getPiecesTurn_inner b color hinner hcolumn
    have hrow : ¬ s.row + 1 < 2 ^ 31 := by
      simp only [Int.ofNat_eq_natCast] at hleft
      omega
    exact .leave (hturn.trans (if_neg hrow))
  | succ left ih =>
    obtain ⟨out, hturn⟩ := getPiecesTurn_inner b color hinner hcolumn
    simp only [Int.ofNat_eq_natCast] at hleft ih
    have hrow : s.row + 1 < 2 ^ 31 := by omega
    have hleft' : s.row + 1 + left = 2 ^ 31 - 1 := by omega
    exact .again (hturn.trans (if_pos hrow)) (ih hinner hcolumn hleft')

/-- The row overflows. -/
theorem getPieces_overflows (b : Board) (color : Color) :
    Lib.Loop (b.getPiecesTurn color) ⟨0, 0, false, []⟩ none := by
  have hbegin : b.getPiecesTurn color ⟨0, 0, false, []⟩ = .inl ⟨0, 0, true, []⟩ := rfl
  have hleft : 0 + Int.ofNat (2 ^ 31 - 1) = 2 ^ 31 - 1 := by decide
  exact .again hbegin (loop_inner rfl (by decide) hleft)

theorem not_getsPieces (pieces : List Piece) : ¬ GetsPieces b color pieces :=
  fun h => nomatch h.unique (getPieces_overflows b color)

/-- `getPieces` returns the pieces of the color in row-major order for no board and no color. -/
theorem getPieces_never (b : Board) (color : Color) : ¬ GetsPieces b color (b.piecesOf color) :=
  not_getsPieces _

/-- There are sixteen white pieces at the start. -/
theorem getPieces_overflows_start :
    let b := ({ self := 0, pieces := fun _ => none } : Board).placePieces
    (b.piecesOf .white).length = 16 ∧ Lib.Loop (b.getPiecesTurn .white) ⟨0, 0, false, []⟩ none ∧
      ¬ GetsPieces b .white (b.piecesOf .white) :=
  ⟨by decide, getPieces_overflows _ _, not_getsPieces _⟩

end Board

/-! ## The start of a match -/

/-- `Match.start`, with the call that tells the winner. -/
def Match.Starts (m : Match) (random : List Nat) (out : Match × List Nat) : Prop :=
  let m := { m with started := true }
  if m.anyCanMove then m.rerollUntilCanMove random = some out
  else ∃ pieces, GetsPieces m.board .white pieces ∧ m.endMatch.rerollUntilCanMove random = some out

/-- Where the call is reached, the start does not come to an end without it either. -/
theorem starts_iff {m : Match} (hcount : 1 ≤ m.columnCount ∧ m.columnCount ≤ 8)
    {random : List Nat} {out : Match × List Nat} :
    m.Starts random out ↔ m.start random = some out := by
  unfold Match.Starts Match.start
  dsimp only
  split_ifs with hany
  · exact Iff.rfl
  · have hstuck := mt (rerollUntilCanMove_iff
      (m := ({ m with started := true } : Match).endMatch) hcount).mp hany
    refine iff_of_false ?_ fun h => hstuck ⟨random, out, h⟩
    rintro ⟨pieces, hpieces, -⟩
    exact not_getsPieces pieces hpieces

end Algiz.ProbChess
