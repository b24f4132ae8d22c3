/-
  `Board::toFEN`.

  The placement field is right: eight rows, each of them the row of the board with its gaps as
  digits, and boards with different positions have different fields (`toFEN_placement`). The loop
  over a row advances its column by the blanks that an inner loop has counted; what it writes are
  the runs of the row (`rowFEN_eq`).
-/
import Algiz.Lib.Gaps
import Algiz.Util
import Algiz.ProbChess.Board

namespace Algiz.ProbChess

open Board Lib

/-! ## Writing -/

/-- `toFEN` of the six classes of pieces -/
def fenLetter : PieceType × Color → UInt8
  | (.bishop, .white) => 66
  | (.bishop, .black) => 98
  | (.king, .white) => 75
  | (.king, .black) => 107
  | (.knight, .white) => 78
  | (.knight, .black) => 110
  | (.pawn, .white) => 80
  | (.pawn, .black) => 112
  | (.queen, .white) => 81
  | (.queen, .black) => 113
  | (.rook, .white) => 82
  | (.rook, .black) => 114

/-- `Piece::toFEN` -/
def Piece.toFEN (piece : Piece) : Bytes := [fenLetter (piece.type, piece.color)]

namespace Board

/-- How far `i` gets in the loop that counts blanks, from a column on. -/
def countBlanks (b : Board) (row : Int) : Nat → Nat → Nat
  | 0, _ => 0
  | fuel + 1, column =>
    if column < 8 ∧ (b.pieceAt ⟨row, Int.ofNat column⟩).isNone then
      countBlanks b row fuel (column + 1) + 1
    else 0

/-- The loop over the columns of a row, from a column on. -/
def rowFEN (b : Board) (row : Int) : Nat → Nat → Bytes
  | 0, _ => []
  | fuel + 1, column =>
    if 8 ≤ column then []
    else match b.pieceAt ⟨row, Int.ofNat column⟩ with
      | some piece => piece.toFEN ++ rowFEN b row fuel (column + 1)
      | none =>
        let i := 1 + countBlanks b row 8 (column + 1)
        decimalText i ++ rowFEN b row fuel (column + (i - 1) + 1)

/-- `toFEN` -/
def toFEN (b : Board) (color : Color) : Bytes :=
  ((List.range 8).flatMap fun row =>
    (if 0 < row then ascii "/" else []) ++ b.rowFEN (Int.ofNat row) 8 0) ++
  ascii " " ++ (if color = .white then ascii "w" else ascii "b") ++
  ascii " -" ++ ascii " -" ++ ascii " 0 1"

end Board

/-- The letters of the pieces, as in the `switch` of `loadFEN`. -/
def fenPiece : UInt8 → Option (PieceType × Color)
  | 66 => some (.bishop, .white)
  | 98 => some (.bishop, .black)
  | 75 => some (.king, .white)
  | 107 => some (.king, .black)
  | 78 => some (.knight, .white)
  | 110 => some (.knight, .black)
  | 80 => some (.pawn, .white)
  | 112 => some (.pawn, .black)
  | 81 => some (.queen, .white)
  | 113 => some (.queen, .black)
  | 82 => some (.rook, .white)
  | 114 => some (.rook, .black)
  | _ => none

/-! ## What is written for a row -/

section Writing

variable {b : Board} {row : Int}

/-- The kind and the color of the piece on a square. -/
def Board.look (b : Board) (s : Square) : Option (PieceType × Color) :=
  (b.pieceAt s).map fun piece => (piece.type, piece.color)

/-- The squares of a row from a column on. -/
def Board.places (b : Board) (row : Int) (column : Nat) : List (Option (PieceType × Color)) :=
  (List.range' column (8 - column)).map fun column => b.look ⟨row, Int.ofNat column⟩

/-- The character for a gap or a piece. -/
def fenChar : Nat ⊕ (PieceType × Color) → UInt8
  | .inl n => 48 + UInt8.ofNat n
  | .inr piece => fenLetter piece

theorem places_of_le {column : Nat} (h : 8 ≤ column) : b.places row column = [] := by
  unfold Board.places
  rw [Nat.sub_eq_zero_of_le h]
  rfl

theorem places_cons {column : Nat} (h : column < 8) :
    b.places row column = b.look ⟨row, Int.ofNat column⟩ :: b.places row (column + 1) := by
  have hlength : 8 - column = 8 - (column + 1) + 1 := by omega
  unfold Board.places
  rw [hlength, List.range'_succ, List.map_cons]

theorem length_places (b : Board) (row : Int) (column : Nat) :
    (b.places row column).length = 8 - column := by
  unfold Board.places
  rw [List.length_map, List.length_range']

/-- The blanks that are counted are a gap, and no blank is behind it. -/
theorem countBlanks_spec (b : Board) (row : Int) (fuel column : Nat) (hfuel : 8 ≤ fuel + column) :
    b.places row column = List.replicate (b.countBlanks row fuel column) none ++
        b.places row (column + b.countBlanks row fuel column) ∧
      (b.places row (column + b.countBlanks row fuel column)).head? ≠ some none := by
  induction fuel generalizing column with
  | zero =>
    have hnil : b.places row column = [] := places_of_le (by omega)
    have hcount : b.countBlanks row 0 column = 0 := rfl
    rw [hcount, Nat.add_zero, hnil]
    exact ⟨rfl, nofun⟩
  | succ fuel ih =>
    rw [countBlanks]
    split
    · rename_i hblank
      obtain ⟨heq, hhead⟩ := ih (column + 1) (by omega)
      have hnone : b.look ⟨row, Int.ofNat column⟩ = none := by
        unfold Board.look
        rw [Option.isNone_iff_eq_none.mp hblank.2, Option.map_none]
      have hshift : column + (b.countBlanks row fuel (column + 1) + 1) =
          column + 1 + b.countBlanks row fuel (column + 1) := by omega
      rw [places_cons hblank.1, hnone, hshift]
      refine ⟨?_, hhead⟩
      rw [List.replicate_succ, List.cons_append, ← heq]
    · rename_i hstop
      refine ⟨rfl, fun hhead => hstop ?_⟩
      rw [Nat.add_zero] at hhead
      by_cases hcolumn : column < 8
      · rw [places_cons hcolumn, List.head?_cons, Option.some_inj] at hhead
        exact ⟨hcolumn, Option.isNone_iff_eq_none.mpr (Option.map_eq_none_iff.mp hhead)⟩
      · rw [places_of_le (by omega)] at hhead
        exact nomatch hhead

/-- A gap on the board is one digit. -/
theorem decimalText_gap {n : Nat} (h : n ≤ 8) : decimalText n = [fenChar (.inl n)] := by
  have hall : ∀ n ≤ 8, decimalText (n : Nat) = [fenChar (.inl n)] := by decide
  exact hall n h

/-- What is written for a row are its runs. -/
theorem rowFEN_eq {fuel column : Nat} (hfuel : 8 ≤ fuel + column) :
    b.rowFEN row fuel column = (runs (b.places row column)).map fenChar := by
  induction fuel generalizing column with
  | zero =>
    rw [places_of_le (by omega)]
    rfl
  | succ fuel ih =>
    rw [rowFEN]
    split
    · rename_i hend
      rw [places_of_le hend]
      rfl
    · rename_i hcolumn
      have hcolumn : column < 8 := by omega
      rw [places_cons hcolumn]
      split
      · rename_i piece hpiece
        have hlook : b.look ⟨row, Int.ofNat column⟩ = some (piece.type, piece.color) := by
          unfold Board.look
          rw [hpiece, Option.map_some]
        rw [hlook, runs_some, List.map_cons, ih (by omega)]
        rfl
      · rename_i hpiece
        have hlook : b.look ⟨row, Int.ofNat column⟩ = none := by
          unfold Board.look
          rw [hpiece, Option.map_none]
        obtain ⟨heq, hhead⟩ := countBlanks_spec b row 8 (column + 1) (by omega)
        have hlength := length_places b row (column + 1)
        generalize b.countBlanks row 8 (column + 1) = n at heq hhead ⊢
        have hn : n + 1 ≤ 8 := by
          rw [heq, List.length_append, List.length_replicate] at hlength
          omega
        have hnext : column + (1 + n - 1) + 1 = column + 1 + n := by omega
        have hruns := runs_gap n hhead
        rw [List.replicate_succ, List.cons_append, ← heq] at hruns
        dsimp only
        rw [hlook, hruns, hnext, ih (by omega), Nat.add_comm 1 n, decimalText_gap hn]
        rfl

end Writing

/-! ## The characters -/

/-- A character that `loadFEN` recognizes in a row. -/
def IsFenChar (ch : UInt8) : Prop := isDigit ch = true ∨ (fenPiece ch).isSome = true

instance (ch : UInt8) : Decidable (IsFenChar ch) := inferInstanceAs (Decidable (_ ∨ _))

/-- How many squares a character stands for. -/
def charWidth (ch : UInt8) : Nat := if isDigit ch then ch.toNat - 48 else 1

/-- How many squares these characters stand for. -/
def width (text : Bytes) : Nat := (text.map charWidth).sum

/-- A row of such characters, with each digit expanded to as many blanks. -/
def expandRow (text : Bytes) : List (Option (PieceType × Color)) :=
  text.flatMap fun ch => if isDigit ch then List.replicate (ch.toNat - 48) none else [fenPiece ch]

/-- A gap that one digit is enough for. -/
def Short : Nat ⊕ (PieceType × Color) → Prop
  | .inl n => n ≤ 8
  | .inr _ => True

section Characters

theorem not_isDigit_of_fenPiece {ch : UInt8} (h : (fenPiece ch).isSome = true) :
    isDigit ch = false := by
  have hall : ∀ n < 256, (fenPiece (UInt8.ofNat n)).isSome = true →
      isDigit (UInt8.ofNat n) = false := by decide +kernel
  have hch := hall ch.toNat ch.toNat_lt
  rw [UInt8.ofNat_toNat] at hch
  exact hch h

theorem fenPiece_fenLetter (piece : PieceType × Color) :
    fenPiece (fenLetter piece) = some piece := by
  obtain ⟨type, color⟩ := piece
  cases type <;> cases color <;> rfl

theorem isDigit_fenChar {t : Nat ⊕ (PieceType × Color)} (h : Short t) :
    isDigit (fenChar t) = t.isLeft := by
  cases t with
  | inl n =>
    have hall : ∀ n ≤ 8, isDigit (fenChar (.inl n)) = true := by decide
    exact hall n h
  | inr piece => exact not_isDigit_of_fenPiece (by rw [fenChar, fenPiece_fenLetter]; rfl)

theorem toNat_fenChar_gap {n : Nat} (h : n ≤ 8) : (fenChar (.inl n)).toNat - 48 = n := by
  have hall : ∀ n ≤ 8, (fenChar (.inl n)).toNat - 48 = n := by decide
  exact hall n h

theorem isFenChar_fenChar {t : Nat ⊕ (PieceType × Color)} (h : Short t) :
    IsFenChar (fenChar t) := by
  cases t with
  | inl n => exact .inl (isDigit_fenChar h)
  | inr piece => exact .inr (by rw [fenChar, fenPiece_fenLetter]; rfl)

/-- What is written between the rows and behind them is in none of them. -/
theorem IsFenChar.ne {ch : UInt8} (h : IsFenChar ch) : ch ≠ 32 ∧ ch ≠ 47 := by
  constructor
  · rintro rfl
    exact absurd h (by decide)
  · rintro rfl
    exact absurd h (by decide)

theorem expandRow_map {ts : List (Nat ⊕ (PieceType × Color))} (h : ∀ t ∈ ts, Short t) :
    expandRow (ts.map fenChar) = expand ts := by
  induction ts with
  | nil => rfl
  | cons t ts ih =>
    obtain ⟨ht, hts⟩ := List.forall_mem_cons.mp h
    have hdigit := isDigit_fenChar ht
    unfold expandRow at ih ⊢
    rw [List.map_cons, List.flatMap_cons, ih hts, hdigit]
    cases t with
    | inl n => rw [Sum.isLeft_inl, if_pos rfl, toNat_fenChar_gap ht, expand_gap]
    | inr piece =>
      rw [Sum.isLeft_inr, if_neg Bool.false_ne_true, fenChar, fenPiece_fenLetter, expand_some]
      rfl

/-- The runs of a row of the board. -/
theorem short_of_mem_runs {b : Board} {row : Int} {column : Nat} :
    ∀ t ∈ runs (b.places row column), Short t := by
  intro t ht
  cases t with
  | inl n =>
    have hn := (length_of_mem_runs ht).2
    rw [length_places] at hn
    exact le_trans hn (Nat.sub_le 8 column)
  | inr piece => trivial

end Characters

/-! ## The placement field -/

/-- The text before the first space. -/
def placement (fen : Bytes) : Bytes := fen.takeWhile (· ≠ 32)

/-- The text is the position of the board, row by row. -/
structure IsPlacement (b : Board) (text : Bytes) : Prop where
  /-- there are eight rows with a slash between them -/
  rows : (fields 47 text).length = 8
  /-- a row has digits and letters of pieces, and nothing else -/
  recognized : ∀ row ∈ fields 47 text, ∀ ch ∈ row, IsFenChar ch
  /-- no two digits are adjacent -/
  separate : ∀ row ∈ fields 47 text,
    row.IsChain fun x y => ¬(isDigit x = true ∧ isDigit y = true)
  /-- with its digits expanded a row is that of the board, square by square -/
  expands : ∀ row < 8, ((fields 47 text)[row]?).map expandRow =
    some ((List.range 8).map fun column => b.look ⟨Int.ofNat row, Int.ofNat column⟩)

section Placement

variable {b b' : Board} {color color' : Color}

/-- A row of the board as it is written. -/
def rowText (b : Board) (row : Nat) : Bytes := (runs (b.places (Int.ofNat row) 0)).map fenChar

theorem isFenChar_of_mem_rowText {row : Nat} {ch : UInt8} (h : ch ∈ rowText b row) :
    IsFenChar ch := by
  obtain ⟨t, ht, rfl⟩ := List.mem_map.mp h
  exact isFenChar_fenChar (short_of_mem_runs t ht)

theorem fields_rowText (b : Board) (row : Nat) : fields 47 (rowText b row) = [rowText b row] :=
  fields_of_not_mem 47 fun h => (isFenChar_of_mem_rowText h).ne.2 rfl

/-- The rows with a slash between them, and the rest of the text. -/
theorem toFEN_eq (b : Board) (color : Color) : ∃ rest,
    b.toFEN color = [47].intercalate ((List.range 8).map (rowText b)) ++ 32 :: rest := by
  have hrow : ∀ row : Nat, b.rowFEN (Int.ofNat row) 8 0 = rowText b row :=
    fun row => rowFEN_eq (by omega)
  refine ⟨(if color = .white then ascii "w" else ascii "b") ++ ascii " -" ++ ascii " -" ++
    ascii " 0 1", ?_⟩
  unfold Board.toFEN
  simp only [hrow]
  simp [List.range_succ, List.intercalate, List.intersperse, ascii]

theorem placement_toFEN (b : Board) (color : Color) :
    placement (b.toFEN color) = [47].intercalate ((List.range 8).map (rowText b)) := by
  obtain ⟨rest, htext⟩ := toFEN_eq b color
  have hnone : ∀ ch ∈ [47].intercalate ((List.range 8).map (rowText b)),
      decide (ch ≠ 32) = true := by
    intro ch hch
    rw [decide_eq_true_eq]
    obtain rfl | ⟨part, hpart, hmem⟩ := mem_intercalate hch
    · decide
    · obtain ⟨row, -, rfl⟩ := List.mem_map.mp hpart
      exact (isFenChar_of_mem_rowText hmem).ne.1
  unfold placement
  rw [htext, List.takeWhile_append_of_pos hnone]
  exact List.append_nil _

theorem fields_placement (b : Board) (color : Color) :
    fields 47 (placement (b.toFEN color)) = (List.range 8).map (rowText b) := by
  have hne : (List.range 8).map (rowText b) ≠ [] := by simp
  rw [placement_toFEN, fields_intercalate 47 hne, List.flatMap_map]
  simp only [fields_rowText]
  exact List.map_eq_flatMap.symm

theorem expandRow_rowText (b : Board) (row : Nat) : expandRow (rowText b row) =
    (List.range 8).map fun column => b.look ⟨Int.ofNat row, Int.ofNat column⟩ := by
  unfold rowText
  rw [expandRow_map short_of_mem_runs, expand_runs]
  unfold Board.places
  rw [List.range_eq_range']

theorem isPlacement_toFEN (b : Board) (color : Color) :
    IsPlacement b (placement (b.toFEN color)) where
  rows := by rw [fields_placement, List.length_map, List.length_range]
  recognized row hrow ch hch := by
    rw [fields_placement] at hrow
    obtain ⟨r, -, rfl⟩ := List.mem_map.mp hrow
    exact isFenChar_of_mem_rowText hch
  separate row hrow := by
    rw [fields_placement] at hrow
    obtain ⟨r, -, rfl⟩ := List.mem_map.mp hrow
    refine (List.isChain_map fenChar).mpr
      ((runs_separate (b.places (Int.ofNat r) 0)).imp_of_mem_imp fun x y hx hy hxy => ?_)
    rw [isDigit_fenChar (short_of_mem_runs x hx), isDigit_fenChar (short_of_mem_runs y hy)]
    exact hxy
  expands row hrow := by
    rw [fields_placement, List.getElem?_map, List.getElem?_range hrow, Option.map_some,
      Option.map_some, expandRow_rowText]

/-- The text says what stands on every square. -/
theorem IsPlacement.look_eq {text : Bytes} (h : IsPlacement b text) (h' : IsPlacement b' text)
    (s : Square) : b.look s = b'.look s := by
  by_cases hs : s.onBoard = true
  · have hsquare := hs
    unfold Square.onBoard at hsquare
    simp only [Bool.and_eq_true, decide_eq_true_eq] at hsquare
    have hrow : s.row.toNat < 8 := by omega
    have heq := (h.expands _ hrow).symm.trans (h'.expands _ hrow)
    have hat := List.map_inj_left.mp (Option.some.inj heq) s.column.toNat
      (List.mem_range.mpr (by omega))
    have hback : (⟨Int.ofNat s.row.toNat, Int.ofNat s.column.toNat⟩ : Square) = s := by
      have hrow : Int.ofNat s.row.toNat = s.row := Int.toNat_of_nonneg (by omega)
      have hcolumn : Int.ofNat s.column.toNat = s.column := Int.toNat_of_nonneg (by omega)
      rw [hrow, hcolumn]
    rwa [hback] at hat
  · unfold Board.look pieceAt
    rw [if_neg hs, if_neg hs]

/-- The placement field of `toFEN` is the position, and boards with different positions have
    different ones. -/
theorem toFEN_placement (b : Board) (color : Color) :
    IsPlacement b (placement (b.toFEN color)) ∧
      ∀ (b' : Board) (color' : Color),
        placement (b'.toFEN color') = placement (b.toFEN color) → ∀ s, b'.look s = b.look s := by
  refine ⟨isPlacement_toFEN b color, fun b' color' heq s => ?_⟩
  have hother := isPlacement_toFEN b' color'
  rw [heq] at hother
  exact hother.look_eq (isPlacement_toFEN b color) s

end Placement

end Algiz.ProbChess
