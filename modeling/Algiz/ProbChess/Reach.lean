/-
  Where the pieces can move, by the rules of the game.

  `Sees` is sight along a line, with nothing in between, and `MayMove` says for each piece where it
  may move, but for what stands there. `canMoveTo` lists these squares, each once, if they are on
  the board and not held by the piece's own color (`canMoveTo_lists`). A slide ends at the first
  piece or at the edge of the board; the rest is about lists.
-/
import Mathlib.Data.List.Nodup
import Algiz.ProbChess.Board

namespace Algiz.ProbChess

open Board

/-! ## Lines -/

/-- So many steps in a direction. -/
def Square.along (s : Square) (d : Int × Int) (n : Nat) : Square := s.shift (n * d.1) (n * d.2)

/-- `t` is on the line from `s` in a direction, and nothing stands in between. -/
def Sees (b : Board) (d : Int × Int) (s t : Square) : Prop :=
  ∃ n, 0 < n ∧ t = s.along d n ∧ ∀ i, 0 < i → i < n → b.pieceAt (s.along d i) = none

/-- A direction along a row or a column. -/
def Straight (d : Int × Int) : Prop := d.1.natAbs + d.2.natAbs = 1

/-- A direction along a diagonal. -/
def Diagonal (d : Int × Int) : Prop := d.1.natAbs = 1 ∧ d.2.natAbs = 1

/-! ## Moves -/

/-- The direction in which pawns move. -/
def forward : Color → Int
  | .black => 1
  | .white => -1

/-- The row on which pawns start. -/
def startRow : Color → Int
  | .black => 1
  | .white => 6

/-- Where a pawn may move. -/
inductive PawnMayMove (b : Board) (color : Color) (s : Square) : Square → Prop
  | ahead (hnext : b.pieceAt (s.shift (forward color) 0) = none) :
      PawnMayMove b color s (s.shift (forward color) 0)
  | twoAhead (hrow : s.row = startRow color)
      (hnext : b.pieceAt (s.shift (forward color) 0) = none)
      (hahead : b.pieceAt (s.shift (2 * forward color) 0) = none) :
      PawnMayMove b color s (s.shift (2 * forward color) 0)
  | captures {t : Square} {other : Piece} (hrow : t.row = s.row + forward color)
      (hcolumn : (t.column - s.column).natAbs = 1) (hother : b.pieceAt t = some other)
      (hcolor : other.color ≠ color) : PawnMayMove b color s t

/-- Where a piece may move, whatever stands there. -/
def MayMove (b : Board) (piece : Piece) (t : Square) : Prop :=
  let s := piece.square
  match piece.type with
  | .rook => ∃ d, Straight d ∧ Sees b d s t
  | .bishop => ∃ d, Diagonal d ∧ Sees b d s t
  | .queen => ∃ d, (Straight d ∨ Diagonal d) ∧ Sees b d s t
  | .knight => (t.row - s.row).natAbs = 1 ∧ (t.column - s.column).natAbs = 2 ∨
      (t.row - s.row).natAbs = 2 ∧ (t.column - s.column).natAbs = 1
  | .king => t ≠ s ∧ (t.row - s.row).natAbs ≤ 1 ∧ (t.column - s.column).natAbs ≤ 1
  | .pawn => PawnMayMove b piece.color s t

/-! ## Slides -/

section Slides

variable {b : Board} {d d' : Int × Int} {s t : Square}

theorem onBoard_iff : s.onBoard = true ↔
    (0 ≤ s.row ∧ s.row < 8) ∧ 0 ≤ s.column ∧ s.column < 8 := by
  unfold Square.onBoard
  simp only [Bool.and_eq_true, decide_eq_true_eq, and_assoc]

theorem along_one (s : Square) (d : Int × Int) : s.along d 1 = s.shift d.1 d.2 := by
  unfold Square.along
  rw [Int.natCast_one, Int.one_mul, Int.one_mul]

theorem along_succ (s : Square) (d : Int × Int) (n : Nat) :
    s.along d (n + 1) = (s.shift d.1 d.2).along d n := by
  unfold Square.along Square.shift
  rw [Int.natCast_succ, Int.add_mul, Int.add_mul, Int.one_mul, Int.one_mul]
  congr 1
  · dsimp only
    omega
  · dsimp only
    omega

/-- A slide of `m` steps at most goes over empty squares of the board, and ends on the board. -/
theorem mem_slide {m : Nat} : t ∈ slide b d.1 d.2 m s ↔
    ∃ n, 0 < n ∧ n ≤ m ∧ t = s.along d n ∧ t.onBoard = true ∧
      ∀ i, 0 < i → i < n → (s.along d i).onBoard = true ∧ b.pieceAt (s.along d i) = none := by
  induction m generalizing s with
  | zero =>
    refine iff_of_false List.not_mem_nil ?_
    rintro ⟨n, hpos, hle, -⟩
    omega
  | succ m ih =>
    unfold slide
    dsimp only
    split
    · -- the next square is off the board
      rename_i hoff
      rw [← along_one, Bool.not_eq_true'] at hoff
      refine iff_of_false List.not_mem_nil ?_
      rintro ⟨n, hpos, -, rfl, hon, hbetween⟩
      rcases Nat.eq_or_lt_of_le (Nat.succ_le_of_lt hpos) with hone | hmore
      · rw [← hone, hoff] at hon
        exact Bool.noConfusion hon
      · rw [(hbetween 1 Nat.one_pos hmore).1] at hoff
        exact Bool.noConfusion hoff
    · rename_i hon
      rw [← along_one, Bool.not_eq_true', Bool.not_eq_false] at hon
      split
      · -- the next square is occupied
        rename_i hsome
        rw [← along_one] at hsome ⊢
        rw [List.mem_singleton]
        constructor
        · rintro rfl
          exact ⟨1, Nat.one_pos, by omega, rfl, hon, fun i hi hlt => by omega⟩
        · rintro ⟨n, hpos, -, rfl, -, hbetween⟩
          rcases Nat.eq_or_lt_of_le (Nat.succ_le_of_lt hpos) with hone | hmore
          · rw [← hone]
          · rw [(hbetween 1 Nat.one_pos hmore).2] at hsome
            exact Bool.noConfusion hsome
      · rename_i hnone
        rw [Bool.not_eq_true, Option.isSome_eq_false_iff, Option.isNone_iff_eq_none] at hnone
        rw [List.mem_cons, ih]
        constructor
        · rintro (rfl | ⟨n, hpos, hle, rfl, hend, hbetween⟩)
          · rw [← along_one] at *
            exact ⟨1, Nat.one_pos, by omega, rfl, hon, fun i hi hlt => by omega⟩
          · refine ⟨n + 1, Nat.succ_pos n, by omega, (along_succ s d n).symm, hend, ?_⟩
            intro i hi hlt
            obtain ⟨j, rfl⟩ := Nat.exists_eq_succ_of_ne_zero (Nat.ne_of_gt hi)
            rcases Nat.eq_zero_or_pos j with rfl | hj
            · rw [← along_one] at hnone
              exact ⟨hon, hnone⟩
            · rw [Nat.succ_eq_add_one, along_succ]
              exact hbetween j hj (by omega)
        · rintro ⟨n, hpos, hle, rfl, hend, hbetween⟩
          obtain ⟨j, rfl⟩ := Nat.exists_eq_succ_of_ne_zero (Nat.ne_of_gt hpos)
          rcases Nat.eq_zero_or_pos j with rfl | hj
          · exact .inl (along_one s d)
          · refine .inr ⟨j, hj, by omega, along_succ s d j, hend, ?_⟩
            intro i hi hlt
            rw [← along_succ]
            exact hbetween (i + 1) (Nat.succ_pos i) (by omega)

/-- No direction but a straight or a diagonal one. -/
def IsUnit (d : Int × Int) : Prop := d.1.natAbs ≤ 1 ∧ d.2.natAbs ≤ 1 ∧ d ≠ (0, 0)

theorem Straight.isUnit (h : Straight d) : IsUnit d := by
  unfold Straight at h
  refine ⟨by omega, by omega, ?_⟩
  rintro rfl
  exact absurd h (by decide)

theorem Diagonal.isUnit (h : Diagonal d) : IsUnit d := by
  refine ⟨h.1.le, h.2.le, ?_⟩
  rintro rfl
  exact absurd h.1 (by decide)

/-- A step of one or none, many times. -/
theorem mul_cases {x : Int} (h : x.natAbs ≤ 1) (n : Nat) :
    x = 0 ∧ n * x = 0 ∨ x = 1 ∧ n * x = n ∨ x = -1 ∧ n * x = -n := by
  have hx : x = 0 ∨ x = 1 ∨ x = -1 := by omega
  rcases hx with rfl | rfl | rfl
  · exact .inl ⟨rfl, Int.mul_zero _⟩
  · exact .inr (.inl ⟨rfl, Int.mul_one _⟩)
  · exact .inr (.inr ⟨rfl, by omega⟩)

/-- Between two squares of the board a line is on the board, and it is no longer than seven. -/
theorem along_onBoard (hd : IsUnit d) {n : Nat} (hs : s.onBoard = true)
    (ht : (s.along d n).onBoard = true) :
    n ≤ 7 ∧ ∀ i < n, (s.along d i).onBoard = true := by
  obtain ⟨hrow, hcolumn, hne⟩ := hd
  have hnonzero : ¬(d.1 = 0 ∧ d.2 = 0) := fun h => hne (Prod.ext h.1 h.2)
  rw [onBoard_iff] at hs ht
  unfold Square.along Square.shift at ht
  dsimp only at ht
  have hrowCases := mul_cases hrow n
  have hcolumnCases := mul_cases hcolumn n
  refine ⟨by omega, fun i hi => ?_⟩
  have hrowCases' := mul_cases hrow i
  have hcolumnCases' := mul_cases hcolumn i
  rw [onBoard_iff]
  unfold Square.along Square.shift
  dsimp only
  omega

/-- From a square of the board a slide goes as far as can be seen. -/
theorem mem_slide_iff (hd : IsUnit d) (hs : s.onBoard = true) :
    t ∈ slide b d.1 d.2 7 s ↔ t.onBoard = true ∧ Sees b d s t := by
  rw [mem_slide]
  constructor
  · rintro ⟨n, hpos, -, rfl, hon, hbetween⟩
    exact ⟨hon, n, hpos, rfl, fun i hi hlt => (hbetween i hi hlt).2⟩
  · rintro ⟨hon, n, hpos, rfl, hbetween⟩
    obtain ⟨hle, hall⟩ := along_onBoard hd hs hon
    exact ⟨n, hpos, hle, rfl, hon, fun i hi hlt => ⟨hall i hlt, hbetween i hi hlt⟩⟩

/-- Different ways from a square lead to different squares. -/
theorem along_injective (hd : IsUnit d) (hd' : IsUnit d') {n m : Nat} (hn : 0 < n) (hm : 0 < m)
    (h : s.along d n = s.along d' m) : d = d' ∧ n = m := by
  obtain ⟨hrow, hcolumn, hne⟩ := hd
  obtain ⟨hrow', hcolumn', -⟩ := hd'
  have hnonzero : ¬(d.1 = 0 ∧ d.2 = 0) := fun h => hne (Prod.ext h.1 h.2)
  unfold Square.along Square.shift at h
  obtain ⟨hrows, hcolumns⟩ := Square.mk.inj h
  have hrowCases := mul_cases hrow n
  have hcolumnCases := mul_cases hcolumn n
  have hrowCases' := mul_cases hrow' m
  have hcolumnCases' := mul_cases hcolumn' m
  refine ⟨Prod.ext ?_ ?_, ?_⟩ <;> omega

theorem nodup_slide (hd : IsUnit d) (m : Nat) (s : Square) : (slide b d.1 d.2 m s).Nodup := by
  induction m generalizing s with
  | zero => exact List.nodup_nil
  | succ m ih =>
    unfold slide
    dsimp only
    split
    · exact List.nodup_nil
    · split
      · exact List.nodup_singleton _
      · refine List.nodup_cons.mpr ⟨fun hmem => ?_, ih _⟩
        obtain ⟨n, hpos, -, heq, -⟩ := mem_slide.mp hmem
        rw [← along_succ, ← along_one] at heq
        obtain ⟨-, hn⟩ := along_injective hd hd Nat.one_pos (Nat.succ_pos n) heq
        omega

/-- No square is in two of the slides. -/
theorem nodup_slides {directions : List (Int × Int)} (hdirections : directions.Nodup)
    (hunit : ∀ d ∈ directions, IsUnit d) (s : Square) : (b.slides directions s).Nodup := by
  unfold slides
  refine List.nodup_flatMap.mpr ⟨fun d hd => nodup_slide (hunit d hd) 7 s, ?_⟩
  refine hdirections.imp_of_mem ?_
  intro d d' hd hd' hne t ht ht'
  obtain ⟨n, hpos, -, hn, -⟩ := mem_slide.mp ht
  obtain ⟨m, hpos', -, hm, -⟩ := mem_slide.mp ht'
  exact hne (along_injective (hunit d hd) (hunit d' hd') hpos hpos' (hn.symm.trans hm)).1

theorem mem_slides_iff {directions : List (Int × Int)} (hunit : ∀ d ∈ directions, IsUnit d)
    (hs : s.onBoard = true) : t ∈ b.slides directions s ↔
      t.onBoard = true ∧ ∃ d ∈ directions, Sees b d s t := by
  unfold slides
  rw [List.mem_flatMap]
  constructor
  · rintro ⟨d, hd, ht⟩
    obtain ⟨hon, hsees⟩ := (mem_slide_iff (hunit d hd) hs).mp ht
    exact ⟨hon, d, hd, hsees⟩
  · rintro ⟨hon, d, hd, hsees⟩
    exact ⟨d, hd, (mem_slide_iff (hunit d hd) hs).mpr ⟨hon, hsees⟩⟩

/-! ## The directions and the steps -/

theorem mem_straights : d ∈ straights ↔ Straight d := by
  obtain ⟨row, column⟩ := d
  unfold straights Straight
  simp only [List.mem_cons, List.not_mem_nil, or_false, Prod.mk.injEq]
  omega

theorem mem_diagonals : d ∈ diagonals ↔ Diagonal d := by
  obtain ⟨row, column⟩ := d
  unfold diagonals Diagonal
  simp only [List.mem_cons, List.not_mem_nil, or_false, Prod.mk.injEq]
  omega

theorem isUnit_of_mem (h : d ∈ diagonals ++ straights) : IsUnit d := by
  rcases List.mem_append.mp h with h | h
  · exact (mem_diagonals.mp h).isUnit
  · exact (mem_straights.mp h).isUnit

theorem shift_injective (s : Square) :
    Function.Injective fun d : Int × Int => s.shift d.1 d.2 := by
  intro d d' h
  obtain ⟨hrow, hcolumn⟩ := Square.mk.inj h
  exact Prod.ext (by omega) (by omega)

/-- Some steps from a square, in the terms of the difference. -/
theorem mem_map_shift {steps : List (Int × Int)} :
    t ∈ steps.map (fun d : Int × Int => s.shift d.1 d.2) ↔
      (t.row - s.row, t.column - s.column) ∈ steps := by
  have ht : t = s.shift (t.row - s.row) (t.column - s.column) := by
    unfold Square.shift
    rw [Int.add_comm s.row, Int.sub_add_cancel, Int.add_comm s.column, Int.sub_add_cancel]
  constructor
  · intro hmem
    obtain ⟨d, hd, rfl⟩ := List.mem_map.mp hmem
    unfold Square.shift
    dsimp only
    have hrow : s.row + d.1 - s.row = d.1 := by omega
    have hcolumn : s.column + d.2 - s.column = d.2 := by omega
    rw [hrow, hcolumn]
    exact hd
  · intro hmem
    exact List.mem_map.mpr ⟨_, hmem, ht.symm⟩

theorem mem_kingSteps {row column : Int} : (row, column) ∈ kingSteps ↔
    ¬(row = 0 ∧ column = 0) ∧ row.natAbs ≤ 1 ∧ column.natAbs ≤ 1 := by
  unfold kingSteps
  simp only [List.mem_cons, List.not_mem_nil, or_false, Prod.mk.injEq]
  omega

theorem mem_knightSteps {row column : Int} : (row, column) ∈ knightSteps ↔
    row.natAbs = 1 ∧ column.natAbs = 2 ∨ row.natAbs = 2 ∧ column.natAbs = 1 := by
  unfold knightSteps
  simp only [List.mem_cons, List.not_mem_nil, or_false, Prod.mk.injEq]
  omega

end Slides

/-! ## Pawns -/

section Pawns

variable {b : Board} {color : Color} {s t : Square}

/-- The squares that `Pawn::canMoveTo` looks at, by the color's direction and row. -/
theorem pawnMoves_eq : b.pawnMoves color s =
    (if (b.pieceAt (s.shift (forward color) 0)).isNone then
      s.shift (forward color) 0 ::
        (if s.row = startRow color ∧ (b.pieceAt (s.shift (2 * forward color) 0)).isNone then
          [s.shift (2 * forward color) 0] else [])
      else []) ++
    (if (b.pieceAt (s.shift (forward color) (-1))).isSome then
      [s.shift (forward color) (-1)] else []) ++
    (if (b.pieceAt (s.shift (forward color) 1)).isSome then
      [s.shift (forward color) 1] else []) := by
  cases color with
  | black =>
    simp [pawnMoves, forward, startRow, Square.shift, Int.add_assoc]
    rfl
  | white =>
    simp [pawnMoves, forward, startRow, Square.shift, Int.add_assoc]
    rfl

theorem nodup_pawnMoves : (b.pawnMoves color s).Nodup := by
  have hforward : forward color ≠ 0 := by cases color <;> decide
  rw [pawnMoves_eq]
  unfold Square.shift
  split_ifs <;> simp <;> omega

theorem mem_diagonal {u : Square} : t ∈ (if (b.pieceAt u).isSome then [u] else []) ↔
    t = u ∧ ∃ other, b.pieceAt u = some other := by
  rw [List.mem_ite_nil_right, List.mem_singleton, Option.isSome_iff_exists, and_comm]

/-- Where a pawn may move are those of these squares that its color does not hold. -/
theorem mem_pawnMoves (hfree : ∀ other, b.pieceAt t = some other → other.color ≠ color) :
    t ∈ b.pawnMoves color s ↔ PawnMayMove b color s t := by
  have hcolumn : ∀ step : Int, step.natAbs = 1 →
      ((s.shift (forward color) step).column - s.column).natAbs = 1 := by
    intro step hstep
    unfold Square.shift
    dsimp only
    omega
  rw [pawnMoves_eq, List.mem_append, List.mem_append, or_assoc]
  constructor
  · rintro (hmem | hmem | hmem)
    · split_ifs at hmem with hnext hahead
      · rw [Option.isNone_iff_eq_none] at hnext hahead
        rcases List.mem_cons.mp hmem with rfl | hmem
        · exact .ahead hnext
        · obtain rfl := List.mem_singleton.mp hmem
          exact .twoAhead hahead.1 hnext hahead.2
      · rw [Option.isNone_iff_eq_none] at hnext
        obtain rfl := List.mem_singleton.mp hmem
        exact .ahead hnext
      · exact absurd hmem List.not_mem_nil
    · obtain ⟨rfl, other, hother⟩ := mem_diagonal.mp hmem
      exact .captures rfl (hcolumn (-1) rfl) hother (hfree other hother)
    · obtain ⟨rfl, other, hother⟩ := mem_diagonal.mp hmem
      exact .captures rfl (hcolumn 1 rfl) hother (hfree other hother)
  · intro hmay
    cases hmay with
    | ahead hnext =>
      rw [if_pos (Option.isNone_iff_eq_none.mpr hnext)]
      exact .inl List.mem_cons_self
    | twoAhead hrow hnext hahead =>
      rw [if_pos (Option.isNone_iff_eq_none.mpr hnext),
        if_pos ⟨hrow, Option.isNone_iff_eq_none.mpr hahead⟩]
      exact .inl (List.mem_cons_of_mem _ (List.mem_singleton_self _))
    | captures hrow hdistance hother hcolor =>
      rename_i other
      have hsides : t = s.shift (forward color) (-1) ∨ t = s.shift (forward color) 1 := by
        obtain ⟨row, column⟩ := t
        dsimp only at hrow hdistance
        unfold Square.shift
        simp only [Square.mk.injEq]
        omega
      refine .inr ?_
      rcases hsides with rfl | rfl
      · exact .inl (mem_diagonal.mpr ⟨rfl, other, hother⟩)
      · exact .inr (mem_diagonal.mpr ⟨rfl, other, hother⟩)

end Pawns

/-! ## What is listed -/

section Lists

variable {b : Board} {piece : Piece} {s t : Square}

theorem allowed_iff {color : Color} : b.allowed color t = true ↔
    t.onBoard = true ∧ ∀ other, b.pieceAt t = some other → other.color ≠ color := by
  unfold allowed
  cases b.pieceAt t with
  | none => simp
  | some other => simp

/-- The squares in a list of moves are those where the piece may move. -/
theorem mem_canMoveTo (hs : piece.square.onBoard = true) : t ∈ b.canMoveTo piece ↔
    t.onBoard = true ∧ (∀ other, b.pieceAt t = some other → other.color ≠ piece.color) ∧
      MayMove b piece t := by
  have hslides : ∀ directions, (∀ d ∈ directions, IsUnit d) → t.onBoard = true →
      (t ∈ b.slides directions piece.square ↔ ∃ d ∈ directions, Sees b d piece.square t) := by
    intro directions hunit hon
    rw [mem_slides_iff hunit hs, and_iff_right hon]
  unfold canMoveTo
  dsimp only
  rw [List.mem_filter, allowed_iff, and_comm, and_assoc]
  refine and_congr_right fun hon => and_congr_right fun hfree => ?_
  unfold MayMove
  dsimp only
  cases piece.type with
  | bishop =>
    simp only [hslides diagonals (fun d hd => (mem_diagonals.mp hd).isUnit) hon, mem_diagonals]
  | rook =>
    simp only [hslides straights (fun d hd => (mem_straights.mp hd).isUnit) hon, mem_straights]
  | queen =>
    simp only [hslides _ (fun d hd => isUnit_of_mem hd) hon, List.mem_append, mem_diagonals,
      mem_straights, or_comm]
  | knight => rw [mem_map_shift, mem_knightSteps]
  | king =>
    rw [mem_map_shift, mem_kingSteps]
    have hself : t = piece.square ↔
        t.row - piece.square.row = 0 ∧ t.column - piece.square.column = 0 := by
      constructor
      · rintro rfl
        omega
      · rintro ⟨hrow, hcolumn⟩
        obtain ⟨row, column⟩ := t
        dsimp only at hrow hcolumn
        rw [Int.sub_eq_zero.mp hrow, Int.sub_eq_zero.mp hcolumn]
    rw [ne_eq, hself]
  | pawn => exact mem_pawnMoves hfree

theorem nodup_canMoveTo (b : Board) (piece : Piece) : (b.canMoveTo piece).Nodup := by
  unfold canMoveTo
  refine List.Nodup.filter _ ?_
  cases piece.type with
  | bishop => exact nodup_slides (by decide) (fun d hd => (mem_diagonals.mp hd).isUnit) _
  | rook => exact nodup_slides (by decide) (fun d hd => (mem_straights.mp hd).isUnit) _
  | queen => exact nodup_slides (by decide) (fun d hd => isUnit_of_mem hd) _
  | knight => exact List.Nodup.map (shift_injective _) (by decide)
  | king => exact List.Nodup.map (shift_injective _) (by decide)
  | pawn => exact nodup_pawnMoves

/-- A queen moves as a rook or as a bishop. -/
theorem queen_mayMove (htype : piece.type = .queen) : MayMove b piece t ↔
    MayMove b { piece with type := .rook } t ∨ MayMove b { piece with type := .bishop } t := by
  unfold MayMove
  dsimp only
  rw [htype]
  constructor
  · rintro ⟨d, hstraight | hdiagonal, hsees⟩
    · exact .inl ⟨d, hstraight, hsees⟩
    · exact .inr ⟨d, hdiagonal, hsees⟩
  · rintro (⟨d, hstraight, hsees⟩ | ⟨d, hdiagonal, hsees⟩)
    · exact ⟨d, .inl hstraight, hsees⟩
    · exact ⟨d, .inr hdiagonal, hsees⟩

/-- For each piece on a well-placed board, `canMoveTo` lists the squares of the board that its color
    does not hold and where it may move, each of them once. What it lists for a queen is what it
    would list for a rook and for a bishop on the queen's square. -/
theorem canMoveTo_lists (hb : WellPlaced b) (hpiece : b.pieceAt s = some piece) :
    (b.canMoveTo piece).Nodup ∧
      (∀ t, t ∈ b.canMoveTo piece ↔ t.onBoard = true ∧
        (∀ other, b.pieceAt t = some other → other.color ≠ piece.color) ∧ MayMove b piece t) ∧
      (piece.type = .queen → ∀ t, t ∈ b.canMoveTo piece ↔
        t ∈ b.canMoveTo { piece with type := .rook } ∨
          t ∈ b.canMoveTo { piece with type := .bishop }) := by
  have hs : piece.square.onBoard = true := by
    rw [hb.square_eq hpiece]
    exact onBoard_of_pieceAt hpiece
  refine ⟨nodup_canMoveTo b piece, fun t => mem_canMoveTo hs, fun htype t => ?_⟩
  have hrook : t ∈ b.canMoveTo { piece with type := .rook } ↔ _ := mem_canMoveTo hs
  have hbishop : t ∈ b.canMoveTo { piece with type := .bishop } ↔ _ := mem_canMoveTo hs
  rw [mem_canMoveTo hs, hrook, hbishop, queen_mayMove htype, ← and_or_left, ← and_or_left]

/-- On an empty board, a queen in the corner. -/
theorem canMoveTo_lists_queen :
    let b := ({ self := 0, pieces := fun _ => none } : Board).set .queen .white ⟨7, 0⟩
    let queen : Piece := ⟨.queen, .white, ⟨7, 0⟩, 0⟩
    (b.canMoveTo queen).Nodup ∧
      (∀ t, t ∈ b.canMoveTo queen ↔ t.onBoard = true ∧
        (∀ other, b.pieceAt t = some other → other.color ≠ queen.color) ∧ MayMove b queen t) ∧
      (queen.type = .queen → ∀ t, t ∈ b.canMoveTo queen ↔
        t ∈ b.canMoveTo { queen with type := .rook } ∨
          t ∈ b.canMoveTo { queen with type := .bishop }) := by
  intro b queen
  have hempty : WellPlaced { self := 0, pieces := fun _ => none } := fun _ _ h => nomatch h
  exact canMoveTo_lists (s := ⟨7, 0⟩) (hempty.set .queen .white (by decide)) (by decide)

end Lists

end Algiz.ProbChess
