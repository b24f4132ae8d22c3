/-
  `Board::loadFEN`.

  Given the placement field that `toFEN` writes, it puts the pieces where they were
  (`loadFEN_placement`). But it is given all of the text, comes to the space behind the field and
  throws, whatever the board is (`not_roundTrips`).

  Neither row nor column is compared with 8. `written` are the places at which `set` indexes the
  array, in order; one that is not on the board is a write out of bounds (`staysOnBoard_iff`). An
  `int` that overflows has no defined value, and here the numbers are those that it would hold.
  The number of rows is not narrowed to an `int` here: all rows are gone through.
-/
import Mathlib.Algebra.GroupWithZero.Nat
import Algiz.ProbChess.FEN
import Algiz.ProbChess.Players

namespace Algiz.ProbChess

open Board Lib

/-- What `loadFEN` leaves. -/
structure Loading where
  board : Board
  /-- where it has indexed `pieces`, in order -/
  written : List Square
  thrown : Option Thrown

/-- `set` -/
def Loading.set (l : Loading) (piece : PieceType × Color) (s : Square) : Loading :=
  { l with board := l.board.set piece.1 piece.2 s, written := l.written ++ [s] }

/-- The `default` of the `switch`. -/
def Loading.reject (l : Loading) (ch : UInt8) : Loading :=
  { l with thrown := some (.runtimeError (ascii "Unrecognized character in FEN: " ++ [ch])) }

/-- The loop of `loadFEN` over the characters of a row. -/
def loadRow (row : Int) : Bytes → Int → Loading → Loading
  | [], _, l => l
  | ch :: rest, column, l =>
    if isDigit ch then loadRow row rest (column + Int.ofNat (ch.toNat - 48)) l
    else match fenPiece ch with
      | none => l.reject ch
      | some piece => loadRow row rest (column + 1) (l.set piece ⟨row, column⟩)

/-- The loop of `loadFEN` over the rows. -/
def loadRows : List Bytes → Int → Loading → Loading
  | [], _, l => l
  | row_string :: rows, row, l =>
    let l := loadRow row row_string 0 l
    if l.thrown.isSome then l else loadRows rows (row + 1) l

/-- `loadFEN` -/
def Board.loadFEN (b : Board) (fen : Bytes) : Loading :=
  loadRows (split fen (ascii "/") false) 0 ⟨b, [], none⟩

/-! ## What `loadFEN` does -/

section Rows

variable {row column : Int} {l : Loading} {ch : UInt8} {rest : Bytes}

/-- `split` at a slash. -/
theorem loadRows_split (fen : Bytes) (l : Loading) :
    loadRows (split fen (ascii "/") false) 0 l = loadRows (fields 47 fen) 0 l := by
  have hslash : ascii "/" = [47] := rfl
  have hpieces : pieces [47] fen.length fen = fields 47 fen := pieces_singleton 47 le_rfl
  unfold split
  split
  · rename_i hempty
    obtain rfl := List.isEmpty_iff.mp hempty
    exact (ite_self l).symm
  · rw [hslash, hpieces]
    cases fields 47 fen with
    | nil => rfl
    | cons first rest => simp

theorem loadRow_digit (h : isDigit ch = true) : loadRow row (ch :: rest) column l =
    loadRow row rest (column + Int.ofNat (ch.toNat - 48)) l := by
  rw [loadRow, if_pos h]

theorem loadRow_piece {piece : PieceType × Color} (h : fenPiece ch = some piece) :
    loadRow row (ch :: rest) column l =
      loadRow row rest (column + 1) (l.set piece ⟨row, column⟩) := by
  have hdigit : isDigit ch = false := not_isDigit_of_fenPiece (by rw [h]; rfl)
  rw [loadRow, hdigit, if_neg Bool.false_ne_true, h]

theorem loadRow_unknown (h : ¬IsFenChar ch) :
    loadRow row (ch :: rest) column l = l.reject ch := by
  unfold IsFenChar at h
  rw [not_or, Bool.not_eq_true, Bool.not_eq_true, Option.isSome_eq_false_iff,
    Option.isNone_iff_eq_none] at h
  rw [loadRow, h.1, if_neg Bool.false_ne_true, h.2]

/-- A character is a digit, a piece, or not recognized. -/
theorem fenChar_cases (ch : UInt8) : isDigit ch = true ∨ (∃ piece, fenPiece ch = some piece) ∨
    ¬IsFenChar ch := by
  by_cases h : IsFenChar ch
  · exact h.elim .inl fun hpiece => .inr (.inl (Option.isSome_iff_exists.mp hpiece))
  · exact .inr (.inr h)

/-- A row is read to its end exactly if all of its characters are recognized. -/
theorem loadRow_thrown (row column : Int) {text : Bytes} (hl : l.thrown = none) :
    (loadRow row text column l).thrown = none ↔ ∀ ch ∈ text, IsFenChar ch := by
  induction text generalizing column l with
  | nil => exact iff_of_true hl fun _ h => absurd h List.not_mem_nil
  | cons ch rest ih =>
    rw [List.forall_mem_cons]
    obtain hdigit | ⟨piece, hpiece⟩ | hunknown := fenChar_cases ch
    · rw [loadRow_digit hdigit, ih _ hl]
      exact (and_iff_right (.inl hdigit)).symm
    · have hset : (l.set piece ⟨row, column⟩).thrown = none := hl
      rw [loadRow_piece hpiece, ih _ hset]
      exact (and_iff_right (.inr (by rw [hpiece]; rfl))).symm
    · rw [loadRow_unknown hunknown]
      exact iff_of_false nofun fun h => hunknown h.1

/-- In this text a piece is behind `front`, and nothing has been thrown up to there. -/
def PieceBehind (text front : Bytes) : Prop :=
  ∃ letter rest, text = front ++ letter :: rest ∧ (fenPiece letter).isSome = true ∧
    ∀ ch ∈ front, ch = 47 ∨ IsFenChar ch

theorem pieceBehind_cons {front : Bytes} : PieceBehind (ch :: rest) front ↔
    (front = [] ∧ (fenPiece ch).isSome = true) ∨
      ∃ front', front = ch :: front' ∧ (ch = 47 ∨ IsFenChar ch) ∧ PieceBehind rest front' := by
  constructor
  · rintro ⟨letter, tail, heq, hletter, hfront⟩
    cases front with
    | nil =>
      obtain ⟨rfl, -⟩ := List.cons.inj heq
      exact .inl ⟨rfl, hletter⟩
    | cons c front =>
      obtain ⟨rfl, htail⟩ := List.cons.inj heq
      obtain ⟨hch, hfront⟩ := List.forall_mem_cons.mp hfront
      exact .inr ⟨front, rfl, hch, letter, tail, htail, hletter, hfront⟩
  · rintro (⟨rfl, hletter⟩ | ⟨front, rfl, hch, letter, tail, rfl, hletter, hfront⟩)
    · exact ⟨ch, rest, rfl, hletter, fun _ h => absurd h List.not_mem_nil⟩
    · exact ⟨letter, tail, rfl, hletter, List.forall_mem_cons.mpr ⟨hch, hfront⟩⟩

theorem not_pieceBehind_nil (front : Bytes) : ¬PieceBehind [] front := by
  rintro ⟨letter, rest, heq, -⟩
  exact List.append_ne_nil_of_right_ne_nil front (List.cons_ne_nil _ _) heq.symm

theorem width_cons (ch : UInt8) (text : Bytes) : width (ch :: text) = charWidth ch + width text :=
  List.sum_cons

/-- Where a row is written to: its pieces are as far behind its start as what is in front of them
    is wide. -/
theorem mem_loadRow {text : Bytes} (htext : 47 ∉ text) (s : Square) :
    s ∈ (loadRow row text column l).written ↔ s ∈ l.written ∨
      ∃ front, PieceBehind text front ∧ s = ⟨row, column + Int.ofNat (width front)⟩ := by
  induction text generalizing column l with
  | nil => exact (or_iff_left fun ⟨front, h, _⟩ => not_pieceBehind_nil front h).symm
  | cons ch rest ih =>
    rw [List.mem_cons, not_or] at htext
    have hshift : ∀ front, column + Int.ofNat (width (ch :: front)) =
        column + Int.ofNat (charWidth ch) + Int.ofNat (width front) := by
      intro front
      rw [width_cons]
      simp only [Int.ofNat_eq_natCast, Int.natCast_add]
      omega
    obtain hdigit | ⟨piece, hpiece⟩ | hunknown := fenChar_cases ch
    · have hnot : ¬(fenPiece ch).isSome = true := by
        intro hsome
        rw [not_isDigit_of_fenPiece hsome] at hdigit
        exact Bool.noConfusion hdigit
      have hwidth : charWidth ch = ch.toNat - 48 := if_pos hdigit
      rw [loadRow_digit hdigit, ih htext.2]
      refine or_congr_right ⟨?_, ?_⟩
      · rintro ⟨front, hfront, rfl⟩
        refine ⟨ch :: front,
          pieceBehind_cons.mpr (.inr ⟨front, rfl, .inr (.inl hdigit), hfront⟩), ?_⟩
        rw [hshift, hwidth]
      · rintro ⟨front, hfront, rfl⟩
        obtain ⟨-, hsome⟩ | ⟨front, rfl, -, hfront⟩ := pieceBehind_cons.mp hfront
        · exact absurd hsome hnot
        · exact ⟨front, hfront, by rw [hshift, hwidth]⟩
    · have hsome : (fenPiece ch).isSome = true := by rw [hpiece]; rfl
      have hwidth : charWidth ch = 1 := by
        unfold charWidth
        rw [not_isDigit_of_fenPiece hsome, if_neg Bool.false_ne_true]
      have hset : s ∈ (l.set piece ⟨row, column⟩).written ↔ s ∈ l.written ∨ s = ⟨row, column⟩ := by
        unfold Loading.set
        rw [List.mem_append, List.mem_singleton]
      rw [loadRow_piece hpiece, ih htext.2, hset, or_assoc]
      refine or_congr_right ⟨?_, ?_⟩
      · rintro (rfl | ⟨front, hfront, rfl⟩)
        · refine ⟨[], pieceBehind_cons.mpr (.inl ⟨rfl, hsome⟩), ?_⟩
          simp [width]
        · refine ⟨ch :: front,
            pieceBehind_cons.mpr (.inr ⟨front, rfl, .inr (.inr hsome), hfront⟩), ?_⟩
          rw [hshift, hwidth]
          rfl
      · rintro ⟨front, hfront, rfl⟩
        obtain ⟨rfl, -⟩ | ⟨front, rfl, -, hfront⟩ := pieceBehind_cons.mp hfront
        · exact .inl (by simp [width])
        · refine .inr ⟨front, hfront, ?_⟩
          rw [hshift, hwidth]
          rfl
    · rw [loadRow_unknown hunknown]
      refine (or_iff_left ?_).symm
      rintro ⟨front, hfront, -⟩
      obtain ⟨-, hsome⟩ | ⟨-, -, hch, -⟩ := pieceBehind_cons.mp hfront
      · exact hunknown (.inr hsome)
      · exact hch.elim (Ne.symm htext.1) hunknown

theorem loadRows_cons_thrown {text : Bytes} {rows : List Bytes}
    (h : (loadRow row text 0 l).thrown ≠ none) :
    loadRows (text :: rows) row l = loadRow row text 0 l :=
  if_pos (Option.isSome_iff_ne_none.mpr h)

theorem loadRows_cons {text : Bytes} {rows : List Bytes}
    (h : (loadRow row text 0 l).thrown = none) :
    loadRows (text :: rows) row l = loadRows rows (row + 1) (loadRow row text 0 l) :=
  if_neg (by rw [h]; exact Bool.false_ne_true)

theorem loadRows_singleton (text : Bytes) (row : Int) (l : Loading) :
    loadRows [text] row l = loadRow row text 0 l := by
  by_cases h : (loadRow row text 0 l).thrown = none
  · exact loadRows_cons h
  · exact loadRows_cons_thrown h

/-- A piece behind the first slash is a piece in what follows it. -/
theorem pieceBehind_line {line front : Bytes} (hline : 47 ∉ line) :
    PieceBehind (line ++ 47 :: rest) front ↔ PieceBehind line front ∨
      ∃ front', front = line ++ 47 :: front' ∧ (∀ ch ∈ line, IsFenChar ch) ∧
        PieceBehind rest front' := by
  induction line generalizing front with
  | nil =>
    rw [List.nil_append, pieceBehind_cons]
    constructor
    · rintro (⟨-, hsome⟩ | ⟨front, rfl, -, hrest⟩)
      · exact Bool.noConfusion hsome
      · exact .inr ⟨front, rfl, fun _ h => absurd h List.not_mem_nil, hrest⟩
    · rintro (hnil | ⟨front, rfl, -, hrest⟩)
      · exact absurd hnil (not_pieceBehind_nil front)
      · exact .inr ⟨front, rfl, .inl rfl, hrest⟩
  | cons ch line ih =>
    rw [List.mem_cons, not_or] at hline
    rw [List.cons_append, pieceBehind_cons, pieceBehind_cons]
    constructor
    · rintro (hfirst | ⟨front, rfl, hch, hrest⟩)
      · exact .inl (.inl hfirst)
      · obtain hline' | ⟨front, rfl, hall, hrest⟩ := (ih hline.2).mp hrest
        · exact .inl (.inr ⟨front, rfl, hch, hline'⟩)
        · have hfirst := hch.resolve_left (Ne.symm hline.1)
          exact .inr ⟨front, rfl, List.forall_mem_cons.mpr ⟨hfirst, hall⟩, hrest⟩
    · rintro ((hfirst | ⟨front, rfl, hch, hrest⟩) | ⟨front, rfl, hall, hrest⟩)
      · exact .inl hfirst
      · exact .inr ⟨front, rfl, hch, (ih hline.2).mpr (.inl hrest)⟩
      · obtain ⟨hfirst, hall⟩ := List.forall_mem_cons.mp hall
        exact .inr ⟨_, rfl, .inr hfirst, (ih hline.2).mpr (.inr ⟨front, rfl, hall, hrest⟩)⟩

/-- Where the rows of a text are written to: the slashes in front of a piece are its row, and its
    column is as far along as what is between the last slash and it is wide. -/
theorem mem_loadRows (fen : Bytes) (hl : l.thrown = none) (s : Square) :
    s ∈ (loadRows (fields 47 fen) row l).written ↔ s ∈ l.written ∨
      ∃ front, PieceBehind fen front ∧
        s = ⟨row + Int.ofNat (front.count 47), Int.ofNat (width (unfinished 47 front))⟩ := by
  induction fen using lineInduction (47 : UInt8) generalizing row l with
  | tail fen hfen =>
    rw [fields_of_not_mem 47 hfen, loadRows_singleton, mem_loadRow hfen]
    refine or_congr_right (exists_congr fun front => and_congr_right fun hfront => ?_)
    have hnone : 47 ∉ front := by
      obtain ⟨letter, rest, rfl, -⟩ := hfront
      exact fun h => hfen (List.mem_append_left _ h)
    rw [unfinished_of_not_mem 47 hnone, List.count_eq_zero_of_not_mem hnone]
    simp
  | line line rest hline ih =>
    have hshift : ∀ front : Bytes, row + Int.ofNat ((line ++ 47 :: front).count 47) =
        row + 1 + Int.ofNat (front.count 47) := by
      intro front
      rw [List.count_append, List.count_eq_zero_of_not_mem hline, List.count_cons_self]
      simp only [Int.ofNat_eq_natCast]
      omega
    have hfirst : s ∈ (loadRow row line 0 l).written ↔ s ∈ l.written ∨
        ∃ front, PieceBehind line front ∧
          s = ⟨row + Int.ofNat (front.count 47), Int.ofNat (width (unfinished 47 front))⟩ := by
      rw [mem_loadRow hline]
      refine or_congr_right (exists_congr fun front => and_congr_right fun hfront => ?_)
      have hnone : 47 ∉ front := by
        obtain ⟨letter, rest, rfl, -⟩ := hfront
        exact fun h => hline (List.mem_append_left _ h)
      rw [unfinished_of_not_mem 47 hnone, List.count_eq_zero_of_not_mem hnone]
      simp
    rw [fields_line 47 hline]
    by_cases hthrown : (loadRow row line 0 l).thrown = none
    · have hall := (loadRow_thrown _ _ hl).mp hthrown
      rw [loadRows_cons hthrown, ih hthrown, hfirst, or_assoc]
      refine or_congr_right ⟨?_, ?_⟩
      · rintro (⟨front, hfront, hs⟩ | ⟨front, hfront, hs⟩)
        · exact ⟨front, (pieceBehind_line hline).mpr (.inl hfront), hs⟩
        · refine ⟨line ++ 47 :: front,
            (pieceBehind_line hline).mpr (.inr ⟨front, rfl, hall, hfront⟩), ?_⟩
          rw [hs, hshift, unfinished_line 47 hline]
      · rintro ⟨front, hfront, hs⟩
        obtain hfront | ⟨front, rfl, -, hfront⟩ := (pieceBehind_line hline).mp hfront
        · exact .inl ⟨front, hfront, hs⟩
        · rw [hshift, unfinished_line 47 hline] at hs
          exact .inr ⟨front, hfront, hs⟩
    · rw [loadRows_cons_thrown hthrown, hfirst]
      refine or_congr_right (exists_congr fun front => and_congr_left fun _ => ?_)
      refine ⟨fun h => (pieceBehind_line hline).mpr (.inl h), fun h => ?_⟩
      refine ((pieceBehind_line hline).mp h).resolve_right ?_
      rintro ⟨-, -, hall, -⟩
      exact hthrown ((loadRow_thrown _ _ hl).mpr hall)

end Rows

/-! ## The bounds -/

/-- `loadFEN` indexes the array only where there are squares. -/
def StaysOnBoard (b : Board) (fen : Bytes) : Prop :=
  ∀ s ∈ (b.loadFEN fen).written, s.onBoard = true

/-- Up to the first character that is not recognized, each piece is in one of the first eight rows,
    and what is in front of it in its row is less than eight squares wide. -/
def Fits (fen : Bytes) : Prop :=
  ∀ front, PieceBehind fen front → front.count 47 < 8 ∧ width (unfinished 47 front) < 8

/-- `loadFEN` stays within the array exactly if what it is given fits on the board. -/
theorem staysOnBoard_iff (b : Board) (fen : Bytes) : StaysOnBoard b fen ↔ Fits fen := by
  have hsquare : ∀ row column : Nat, (⟨0 + Int.ofNat row, Int.ofNat column⟩ : Square).onBoard =
      true ↔ row < 8 ∧ column < 8 := by
    intro row column
    unfold Square.onBoard
    simp only [Bool.and_eq_true, decide_eq_true_eq, Int.ofNat_eq_natCast]
    omega
  have hmem : ∀ s, s ∈ (b.loadFEN fen).written ↔ ∃ front, PieceBehind fen front ∧
      s = ⟨0 + Int.ofNat (front.count 47), Int.ofNat (width (unfinished 47 front))⟩ := by
    intro s
    unfold Board.loadFEN
    rw [loadRows_split, mem_loadRows fen rfl]
    exact or_iff_right List.not_mem_nil
  constructor
  · intro h front hfront
    exact (hsquare _ _).mp (h _ ((hmem _).mpr ⟨front, hfront, rfl⟩))
  · intro h s hs
    obtain ⟨front, hfront, rfl⟩ := (hmem s).mp hs
    exact (hsquare _ _).mpr (h front hfront)

/-- Nothing is thrown at a pawn behind eight blanks, and it is written next to the board. -/
theorem not_staysOnBoard_eightBlanks :
    (Board.loadFEN ⟨0, fun _ => none⟩ (ascii "8p")).thrown = none ∧
      ¬StaysOnBoard ⟨0, fun _ => none⟩ (ascii "8p") := by
  refine ⟨by decide, fun h => ?_⟩
  have hwritten : (⟨0, 8⟩ : Square) ∈
      (Board.loadFEN ⟨0, fun _ => none⟩ (ascii "8p")).written := by decide
  exact absurd (h _ hwritten) (by decide)

/-! ## There and back -/

section RoundTrip

variable {row column : Int} {l : Loading} {b target : Board} {s : Square}

/-- Nothing behind a character that is not recognized is read. -/
theorem loadRow_reject (row column : Int) (l : Loading) {front : Bytes}
    (hfront : ∀ ch ∈ front, IsFenChar ch) {ch : UInt8} (hch : ¬IsFenChar ch) (rest : Bytes) :
    loadRow row (front ++ ch :: rest) column l = (loadRow row front column l).reject ch := by
  induction front generalizing column l with
  | nil => exact loadRow_unknown hch
  | cons first front ih =>
    obtain ⟨hfirst, hfront⟩ := List.forall_mem_cons.mp hfront
    rw [List.cons_append]
    obtain hdigit | ⟨piece, hpiece⟩ | hunknown := fenChar_cases first
    · rw [loadRow_digit hdigit, loadRow_digit hdigit, ih _ _ hfront]
    · rw [loadRow_piece hpiece, loadRow_piece hpiece, ih _ _ hfront]
    · exact absurd hfirst hunknown

theorem loadRows_reject {front : Bytes} (hfront : ∀ ch ∈ front, ch = 47 ∨ IsFenChar ch)
    {ch : UInt8} (hslash : ch ≠ 47) (hch : ¬IsFenChar ch) (rest : Bytes) (hl : l.thrown = none) :
    loadRows (fields 47 (front ++ ch :: rest)) row l =
      (loadRows (fields 47 front) row l).reject ch := by
  induction front using lineInduction (47 : UInt8) generalizing row l with
  | tail front hnone =>
    have hknown : ∀ c ∈ front, IsFenChar c := fun c hc =>
      (hfront c hc).resolve_left fun heq => hnone (heq ▸ hc)
    have hstops : ∀ text rows, 47 ∉ text →
        loadRows ((front ++ ch :: text) :: rows) row l = (loadRow row front 0 l).reject ch := by
      intro text rows htext
      have hreject := loadRow_reject row 0 l hknown hch text
      rw [loadRows_cons_thrown (by rw [hreject]; exact nofun), hreject]
    rw [fields_of_not_mem 47 hnone, loadRows_singleton]
    rcases eq_line_append 47 rest with hrest | ⟨text, more, htext, rfl⟩
    · have hall : 47 ∉ front ++ ch :: rest := by
        simp [hnone, Ne.symm hslash, hrest]
      rw [fields_of_not_mem 47 hall]
      exact hstops rest [] hrest
    · have hall : 47 ∉ front ++ ch :: text := by
        simp [hnone, Ne.symm hslash, htext]
      rw [← List.cons_append, ← List.append_assoc, fields_line 47 hall]
      exact hstops text _ htext
  | line line front hline ih =>
    obtain ⟨hknown, hfront⟩ := List.forall_mem_append.mp hfront
    have hknown : ∀ c ∈ line, IsFenChar c := fun c hc =>
      (hknown c hc).resolve_left fun heq => hline (heq ▸ hc)
    have hthrown := (loadRow_thrown row 0 hl).mpr hknown
    rw [List.append_assoc, List.cons_append, fields_line 47 hline, fields_line 47 hline,
      loadRows_cons hthrown, loadRows_cons hthrown]
    exact ih (fun c hc => hfront c (List.mem_cons_of_mem _ hc)) hthrown

theorem isFenChar_of_mem_placement {color : Color} {ch : UInt8}
    (h : ch ∈ placement (b.toFEN color)) : ch = 47 ∨ IsFenChar ch := by
  rw [placement_toFEN] at h
  refine (mem_intercalate h).imp_right ?_
  rintro ⟨part, hpart, hmem⟩
  obtain ⟨row, -, rfl⟩ := List.mem_map.mp hpart
  exact isFenChar_of_mem_rowText hmem

/-- `loadFEN` reads the placement field, and throws at the space behind it. -/
theorem loadFEN_toFEN (b target : Board) (color : Color) : target.loadFEN (b.toFEN color) =
    (target.loadFEN (placement (b.toFEN color))).reject 32 := by
  obtain ⟨rest, htext⟩ := toFEN_eq b color
  rw [← placement_toFEN b color] at htext
  unfold Board.loadFEN
  rw [loadRows_split, loadRows_split]
  conv => lhs; rw [htext]
  exact loadRows_reject (fun ch hch => isFenChar_of_mem_placement hch) (by decide) (by decide)
    rest rfl

theorem look_set {t : Square} (hs : s.onBoard = true) (type : PieceType) (color : Color) :
    (b.set type color t).look s = if s = t then some (type, color) else b.look s := by
  unfold Board.look Board.set
  split
  · rename_i heq
    subst heq
    rw [pieceAt_put_self hs]
    rfl
  · rename_i hne
    rw [pieceAt_put_of_ne hne]

/-- A row that was written for some places puts what stands in them behind the column, and leaves
    the rest of the board. -/
theorem loadRow_look (hs : s.onBoard = true) {ts : List (Nat ⊕ (PieceType × Color))}
    (hts : ∀ t ∈ ts, Short t) : (loadRow row (ts.map fenChar) column l).board.look s =
      if s.row = row ∧ column ≤ s.column then
        ((expand ts)[(s.column - column).toNat]?.join).or (l.board.look s)
      else l.board.look s := by
  induction ts generalizing column l with
  | nil => simp [loadRow]
  | cons t ts ih =>
    obtain ⟨ht, hrest⟩ := List.forall_mem_cons.mp hts
    cases t with
    | inl n =>
      rw [List.map_cons, loadRow_digit (isDigit_fenChar ht), toNat_fenChar_gap ht, ih hrest,
        expand_gap]
      by_cases hrow : s.row = row ∧ column ≤ s.column
      · rw [if_pos hrow]
        by_cases hgap : column + Int.ofNat n ≤ s.column
        · have hindex : (s.column - column).toNat =
              n + (s.column - (column + Int.ofNat n)).toNat := by
            simp only [Int.ofNat_eq_natCast] at hgap ⊢
            omega
          rw [if_pos ⟨hrow.1, hgap⟩, hindex, List.getElem?_append_right (by simp)]
          simp
        · have hindex : (s.column - column).toNat < n := by
            simp only [Int.ofNat_eq_natCast] at hgap
            omega
          rw [if_neg fun h => hgap h.2, List.getElem?_append_left (by simpa using hindex),
            List.getElem?_replicate, if_pos hindex]
          rfl
      · rw [if_neg hrow, if_neg]
        rintro ⟨hsame, hgap⟩
        refine hrow ⟨hsame, ?_⟩
        simp only [Int.ofNat_eq_natCast] at hgap
        omega
    | inr piece =>
      have hset := look_set (b := l.board) (t := ⟨row, column⟩) hs piece.1 piece.2
      have hboard : (l.set piece ⟨row, column⟩).board = l.board.set piece.1 piece.2 ⟨row, column⟩ :=
        rfl
      have hletter : fenPiece (fenChar (.inr piece)) = some piece := fenPiece_fenLetter piece
      rw [List.map_cons, loadRow_piece hletter, ih hrest, expand_some, hboard, hset]
      by_cases hrow : s.row = row ∧ column ≤ s.column
      · rw [if_pos hrow]
        by_cases hnext : column + 1 ≤ s.column
        · have hindex : (s.column - column).toNat = (s.column - (column + 1)).toNat + 1 := by omega
          have hne : s ≠ ⟨row, column⟩ := by
            rintro rfl
            dsimp only at hnext
            omega
          rw [if_pos ⟨hrow.1, hnext⟩, if_neg hne, hindex, List.getElem?_cons_succ]
        · have hcolumn : s.column = column := by omega
          have heq : s = ⟨row, column⟩ := by rw [← hrow.1, ← hcolumn]
          rw [if_neg fun h => hnext h.2, if_pos heq, hcolumn, Int.sub_self]
          rfl
      · have hne : s ≠ ⟨row, column⟩ := by
          rintro rfl
          exact hrow ⟨rfl, le_rfl⟩
        rw [if_neg hrow, if_neg hne, if_neg]
        rintro ⟨hsame, hnext⟩
        exact hrow ⟨hsame, by omega⟩

/-- The rows of a board, from one on: what stands in them is put on the other board. -/
theorem loadRows_look (hs : s.onBoard = true) (first : Nat) (hl : l.thrown = none) {n : Nat} :
    (loadRows ((List.range' first n).map (rowText b)) (Int.ofNat first) l).thrown = none ∧
      (loadRows ((List.range' first n).map (rowText b)) (Int.ofNat first) l).board.look s =
        if Int.ofNat first ≤ s.row ∧ s.row < Int.ofNat (first + n) then
          (b.look s).or (l.board.look s)
        else l.board.look s := by
  induction n generalizing first l with
  | zero =>
    refine ⟨hl, (if_neg ?_).symm⟩
    simp only [Int.ofNat_eq_natCast]
    omega
  | succ n ih =>
    have hthrown : (loadRow (Int.ofNat first) (rowText b first) 0 l).thrown = none :=
      (loadRow_thrown _ _ hl).mpr fun ch hch => isFenChar_of_mem_rowText hch
    have hcolumn : 0 ≤ s.column ∧ s.column < 8 := by
      unfold Square.onBoard at hs
      simp only [Bool.and_eq_true, decide_eq_true_eq] at hs
      omega
    have hlook : (loadRow (Int.ofNat first) (rowText b first) 0 l).board.look s =
        if s.row = Int.ofNat first then (b.look s).or (l.board.look s)
        else l.board.look s := by
      unfold rowText
      rw [loadRow_look hs short_of_mem_runs, expand_runs]
      by_cases hrow : s.row = Int.ofNat first
      · have hback : Int.ofNat s.column.toNat = s.column := Int.toNat_of_nonneg hcolumn.1
        unfold Board.places
        rw [if_pos ⟨hrow, hcolumn.1⟩, if_pos hrow, List.getElem?_map, Int.sub_zero,
          List.getElem?_range' (by omega)]
        simp only [Nat.zero_add, Nat.one_mul, Option.map_some, hback, ← hrow]
        rfl
      · rw [if_neg fun h => hrow h.1, if_neg hrow]
    have hnext : Int.ofNat first + 1 = Int.ofNat (first + 1) := rfl
    obtain ⟨hdone, hrest⟩ := ih (first + 1) hthrown
    rw [List.range'_succ, List.map_cons, loadRows_cons hthrown, hnext]
    refine ⟨hdone, ?_⟩
    rw [hrest, hlook]
    simp only [Int.ofNat_eq_natCast]
    split_ifs <;> first | rfl | omega

/-- Given the placement field alone, `loadFEN` puts the pieces of the board where they stand, and
    leaves what is on the other squares. On an empty board this is the position again. -/
theorem loadFEN_placement (b target : Board) (color : Color) :
    (target.loadFEN (placement (b.toFEN color))).thrown = none ∧
      ∀ s, (target.loadFEN (placement (b.toFEN color))).board.look s =
        (b.look s).or (target.look s) := by
  have hrows : target.loadFEN (placement (b.toFEN color)) =
      loadRows ((List.range' 0 8).map (rowText b)) (Int.ofNat 0) ⟨target, [], none⟩ := by
    unfold Board.loadFEN
    rw [loadRows_split, fields_placement, List.range_eq_range']
    rfl
  rw [hrows]
  refine ⟨(loadRows_look (s := ⟨0, 0⟩) rfl 0 rfl).1, fun s => ?_⟩
  by_cases hs : s.onBoard = true
  · have hsquare := hs
    unfold Square.onBoard at hsquare
    simp only [Bool.and_eq_true, decide_eq_true_eq] at hsquare
    rw [(loadRows_look hs 0 rfl).2, if_pos]
    simp only [Int.ofNat_eq_natCast]
    omega
  · have hoff : ∀ b : Board, b.look s = none := by
      intro b
      unfold Board.look pieceAt
      rw [if_neg hs]
      rfl
    rw [hoff, hoff, hoff]
    rfl

/-- `loadFEN` takes what `toFEN` writes for a board, and leaves the same position. -/
structure RoundTrips (b target : Board) (color : Color) : Prop where
  succeeds : (target.loadFEN (b.toFEN color)).thrown = none
  same : ∀ s, (target.loadFEN (b.toFEN color)).board.look s = b.look s

/-- `loadFEN` takes nothing that `toFEN` writes. -/
theorem not_roundTrips (b target : Board) (color : Color) : ¬RoundTrips b target color := by
  intro h
  have hthrown := h.succeeds
  rw [loadFEN_toFEN] at hthrown
  exact nomatch hthrown

/-- The position at the start of a match, loaded on an empty board. -/
theorem not_roundTrips_start : ¬RoundTrips (Board.placePieces ⟨0, fun _ => none⟩)
    ⟨1, fun _ => none⟩ .white := by
  intro h
  exact absurd h.succeeds (by decide)

end RoundTrip

end Algiz.ProbChess
