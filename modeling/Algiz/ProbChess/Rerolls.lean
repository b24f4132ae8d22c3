/-
  The loop of `afterMove` that rolls until a piece can move, in a match without skipped turns.

  A roll can draw any columns there are, so the loop can end if and only if the side whose turn it
  is has a piece that can move at all (`rerollUntilCanMove_iff`). `createMatch` and `joinMatch` ask
  for this with `anyCanMove`, end the match if there is none, and then roll all the same;
  `afterMove` does not ask. Whether there is such a piece is a matter of first steps (`mobile`), and
  the position after a move is the one before it with two squares changed (`lookAfter`).
-/
import Algiz.ProbChess.FEN
import Algiz.ProbChess.Moves

namespace Algiz.ProbChess

open Match Board

/-! ## Mobility -/

/-- What stands on the squares. -/
abbrev Position := Square → Option (PieceType × Color)

/-- A pawn in its last row becomes a queen. -/
def crownAt (s : Square) (piece : PieceType × Color) : PieceType × Color :=
  if piece.1 = .pawn ∧ s.row = lastRow piece.2 then (.queen, piece.2) else piece

/-- The position after a move. -/
def lookAfter (look : Position) (move : Move) : Position := fun s =>
  (if s = move.fromSquare then none
    else if s = move.toSquare then look move.fromSquare
    else look s).map (crownAt s)

/-- The steps from its square to the next ones it can go to, for a piece other than a pawn. -/
def firstSteps : PieceType → List (Int × Int)
  | .bishop => diagonals
  | .king => kingSteps
  | .knight => knightSteps
  | .pawn => []
  | .queen => diagonals ++ straights
  | .rook => straights

/-- Is the square on the board, and not held by the color? -/
def isOpen (look : Position) (color : Color) (s : Square) : Bool :=
  s.onBoard && !(look s).any fun other => other.2 = color

/-- Can a pawn on the square go ahead or capture? -/
def pawnCanStep (look : Position) (color : Color) (s : Square) : Bool :=
  let next := s.shift (forward color) 0
  (next.onBoard && (look next).isNone) || [-1, 1].any fun column =>
    (look (s.shift (forward color) column)).any fun other => other.2 ≠ color

/-- Can a piece on the square take a step? -/
def canStep (look : Position) (piece : PieceType × Color) (s : Square) : Bool :=
  if piece.1 = .pawn then pawnCanStep look piece.2 s
  else (firstSteps piece.1).any fun d => isOpen look piece.2 (s.shift d.1 d.2)

/-- Has the color a piece that can take a step? -/
def mobile (look : Position) (color : Color) : Bool :=
  squares.any fun s => (look s).any fun piece => piece.2 = color && canStep look piece s

/-! ## First steps -/

section Steps

variable {b : Board} {color : Color} {s t : Square} {d : Int × Int}

theorem allowed_eq_isOpen : b.allowed color s = isOpen b.look color s := by
  unfold Board.allowed isOpen Board.look
  rw [Option.any_map]

theorem first_mem_slide (hon : (s.shift d.1 d.2).onBoard = true) (n : Nat) :
    s.shift d.1 d.2 ∈ slide b d.1 d.2 (n + 1) s := by
  rw [mem_slide]
  exact ⟨1, Nat.one_pos, by omega, (along_one s d).symm, hon, fun i hi hlt => by omega⟩

/-- Where a slide gets anywhere, it gets to its first square. -/
theorem isOpen_first {n : Nat} (h : t ∈ slide b d.1 d.2 n s)
    (hopen : isOpen b.look color t = true) : isOpen b.look color (s.shift d.1 d.2) = true := by
  obtain ⟨n, hpos, -, rfl, -, hbetween⟩ := mem_slide.mp h
  rw [← along_one]
  rcases Nat.eq_or_lt_of_le (Nat.succ_le_of_lt hpos) with hone | hmore
  · rw [← hone] at hopen
    exact hopen
  · obtain ⟨hon, hnone⟩ := hbetween 1 Nat.one_pos hmore
    simp [isOpen, Board.look, hon, hnone]

theorem onBoard_of_isOpen {look : Position} (h : isOpen look color s = true) :
    s.onBoard = true := by
  unfold isOpen at h
  exact (Bool.and_eq_true_iff.mp h).1

theorem exists_slides {directions : List (Int × Int)} :
    (∃ t ∈ b.slides directions s, isOpen b.look color t = true) ↔
      ∃ d ∈ directions, isOpen b.look color (s.shift d.1 d.2) = true := by
  unfold slides
  constructor
  · rintro ⟨t, ht, hopen⟩
    obtain ⟨d, hd, ht⟩ := List.mem_flatMap.mp ht
    exact ⟨d, hd, isOpen_first ht hopen⟩
  · rintro ⟨d, hd, hopen⟩
    refine ⟨_, List.mem_flatMap.mpr ⟨d, hd, ?_⟩, hopen⟩
    exact first_mem_slide (onBoard_of_isOpen hopen) 6

theorem look_eq_none : b.look s = none ↔ b.pieceAt s = none := Option.map_eq_none_iff

/-- A pawn can move if it can go one square ahead or capture: two squares ahead it goes over the
    first. -/
theorem exists_pawnMoves (hs : s.onBoard = true) :
    (∃ t ∈ b.pawnMoves color s, isOpen b.look color t = true) ↔
      pawnCanStep b.look color s = true := by
  rw [pawnMoves_eq]
  have hdiagonal : ∀ t : Square, (∃ u ∈ (if (b.pieceAt t).isSome then [t] else []),
      isOpen b.look color u = true) ↔
      ((b.look t).any fun other => other.2 ≠ color) = true := by
    intro t
    cases hpiece : b.pieceAt t with
    | none => simp [Board.look, hpiece]
    | some other =>
      simp [Board.look, hpiece, isOpen, onBoard_of_pieceAt hpiece]
  have hahead : (∃ u ∈ (if (b.pieceAt (s.shift (forward color) 0)).isNone then
      s.shift (forward color) 0 ::
        (if s.row = startRow color ∧ (b.pieceAt (s.shift (2 * forward color) 0)).isNone then
          [s.shift (2 * forward color) 0] else [])
      else []), isOpen b.look color u = true) ↔
      (s.shift (forward color) 0).onBoard = true ∧ b.look (s.shift (forward color) 0) = none := by
    rw [look_eq_none]
    constructor
    · rintro ⟨u, hu, hopen⟩
      split at hu
      · rename_i hnone
        refine ⟨?_, Option.isNone_iff_eq_none.mp hnone⟩
        rcases List.mem_cons.mp hu with rfl | hu
        · exact onBoard_of_isOpen hopen
        · -- from the start row the square ahead is on the board
          obtain ⟨⟨hrow, -⟩, -⟩ := List.mem_ite_nil_right.mp hu
          rw [onBoard_iff] at hs ⊢
          cases color <;> simp [Square.shift, forward, startRow] at hrow ⊢ <;> omega
      · exact absurd hu List.not_mem_nil
    · rintro ⟨hon, hnone⟩
      refine ⟨s.shift (forward color) 0, ?_, ?_⟩
      · rw [hnone]
        exact List.mem_cons_self
      · simp [isOpen, Board.look, hon, hnone]
  unfold pawnCanStep
  simp only [List.mem_append, or_and_right, exists_or, hahead, hdiagonal]
  simp [or_assoc]

/-- A piece can move if and only if it can take a first step. -/
theorem canMoveTo_isEmpty (b : Board) {piece : Piece} (hs : piece.square.onBoard = true) :
    (b.canMoveTo piece).isEmpty = !canStep b.look (piece.type, piece.color) piece.square := by
  have hiff : (∃ t ∈ b.canMoveTo piece, True) ↔
      canStep b.look (piece.type, piece.color) piece.square = true := by
    unfold Board.canMoveTo canStep
    dsimp only
    simp only [List.mem_filter, and_true, allowed_eq_isOpen]
    cases htype : piece.type with
    | pawn => exact exists_pawnMoves hs
    | bishop =>
      simp only [reduceCtorEq, if_false, firstSteps, List.any_eq_true]
      exact exists_slides
    | queen =>
      simp only [reduceCtorEq, if_false, firstSteps, List.any_eq_true]
      exact exists_slides
    | rook =>
      simp only [reduceCtorEq, if_false, firstSteps, List.any_eq_true]
      exact exists_slides
    | king => simp [firstSteps]
    | knight => simp [firstSteps]
  cases hlist : b.canMoveTo piece with
  | nil =>
    rw [hlist] at hiff
    simpa using hiff
  | cons t rest =>
    rw [hlist] at hiff
    simpa using hiff

end Steps

/-! ## The side to move -/

section Sides

variable {m : Match}

theorem pieceCanMove_eq (hb : WellPlaced m.board) (s : Square) : m.pieceCanMove s =
    (m.board.look s).any fun piece =>
      piece.2 = m.currentTurn && canStep m.board.look piece s := by
  unfold Match.pieceCanMove
  cases hpiece : m.board.pieceAt s with
  | none => simp [Board.look, hpiece]
  | some piece =>
    have hsquare := hb.square_eq hpiece
    have hon : piece.square.onBoard = true := hsquare ▸ onBoard_of_pieceAt hpiece
    have hempty := canMoveTo_isEmpty m.board hon
    rw [hsquare] at hempty
    have hlook : m.board.look s = some (piece.type, piece.color) := by
      unfold Board.look
      rw [hpiece, Option.map_some]
    rw [hlook, Option.any_some, Option.any_some, hempty, Bool.not_not]

/-- `anyCanMove`, as the position tells it. -/
theorem anyCanMove_eq (hb : WellPlaced m.board) :
    m.anyCanMove = mobile m.board.look m.currentTurn := by
  rw [Bool.eq_iff_iff]
  unfold Match.anyCanMove mobile
  simp only [pieceCanMove_eq hb, List.any_eq_true, List.mem_range]
  constructor
  · rintro ⟨column, hcolumn, row, hrow, hcan⟩
    refine ⟨⟨Int.ofNat row, Int.ofNat column⟩, mem_squares.mpr ?_, hcan⟩
    simp [Square.onBoard]
    omega
  · rintro ⟨s, hs, hcan⟩
    have hon := onBoard_iff.mp (mem_squares.mp hs)
    have hrow : Int.ofNat s.row.toNat = s.row := Int.toNat_of_nonneg hon.1.1
    have hcolumn : Int.ofNat s.column.toNat = s.column := Int.toNat_of_nonneg hon.2.1
    refine ⟨s.column.toNat, by omega, s.row.toNat, by omega, ?_⟩
    rw [hrow, hcolumn]
    exact hcan

/-- The position after a move, from the one before it. -/
theorem look_boardAfter {player : Role} {move : Move} {piece : Piece} {target : Option Piece}
    (hb : WellPlaced m.board) (h : Accepts m player move piece target) :
    (boardAfter m piece target move.toSquare).look = lookAfter m.board.look move := by
  funext s
  obtain ⟨hcapture, -, hsource, -⟩ := capture_board hb h
  have hmoved : WellPlaced ((m.capture target).board.move piece move.toSquare) :=
    hcapture.move (hcapture.parent_eq hsource) (onBoard_of_mem h.reaches)
  have hcrown : ∀ piece : Piece, (fun piece : Piece => (piece.type, piece.color))
      (if piece.type = .pawn ∧ s.row = lastRow piece.color then
        ⟨.queen, piece.color, s, ((m.capture target).board.move piece move.toSquare).self⟩
      else piece) = crownAt s (piece.type, piece.color) := by
    intro piece
    unfold crownAt
    dsimp only
    split <;> rfl
  unfold lookAfter Board.look boardAfter
  rw [checkPawns_pieceAt hmoved, moved_pieceAt hb h, h.source]
  split
  · rfl
  · split
    · exact congrArg some (hcrown _)
    · cases m.board.pieceAt s with
      | none => rfl
      | some other => exact congrArg some (hcrown other)

end Sides

/-! ## Rolls that end the loop -/

section Rolls

variable {m : Match} {random : List Nat}

/-- Random numbers whose two dice come to a column. -/
def diceFor (column : Nat) : List Nat :=
  if column = 0 then [2, 5] else if column = 7 then [1, 5] else [column - 1, 0]

theorem rollColumn_diceFor {columns : List Int} {column : Nat} (hcolumn : column < 8)
    (hnew : Int.ofNat column ∉ columns) (random : List Nat) :
    rollColumn columns (diceFor column ++ random) = some (Int.ofNat column, random) := by
  have hdice : ∃ a b, diceFor column = [a, b] ∧ dice a b = Int.ofNat column := by
    have hall : ∀ column < 8, ∃ a < 7, ∃ b < 6,
        diceFor column = [a, b] ∧ dice a b = Int.ofNat column := by decide
    obtain ⟨a, -, b, -, h⟩ := hall column hcolumn
    exact ⟨a, b, h⟩
  obtain ⟨a, b, heq, hvalue⟩ := hdice
  rw [heq, List.cons_append, List.cons_append, List.nil_append, rollColumn, hvalue, if_neg]
  rwa [List.contains_iff_mem]

/-- Any different columns can be drawn, one after the other. -/
theorem rollColumns_diceFor {drawn : List Nat} (columns : List Int) (hnodup : drawn.Nodup)
    (hdrawn : ∀ column ∈ drawn, column < 8 ∧ Int.ofNat column ∉ columns) (random : List Nat) :
    ∃ columns', rollColumns drawn.length columns (drawn.flatMap diceFor ++ random) =
        some (columns', random) ∧
      ∀ column : Int, column ∈ columns' ↔ column ∈ columns ∨ column ∈ drawn.map Int.ofNat := by
  induction drawn generalizing columns with
  | nil => exact ⟨columns, rfl, by simp⟩
  | cons first drawn ih =>
    obtain ⟨hfirst, hnodup⟩ := List.nodup_cons.mp hnodup
    obtain ⟨hrange, hnew⟩ := hdrawn first List.mem_cons_self
    have hmem : ∀ column : Int,
        column ∈ columns.orderedInsert (· ≤ ·) (Int.ofNat first) ↔
          column = Int.ofNat first ∨ column ∈ columns := by
      intro column
      rw [List.mem_orderedInsert]
    obtain ⟨columns', hroll, hcolumns'⟩ :=
      ih (columns.orderedInsert (· ≤ ·) (Int.ofNat first)) hnodup (by
        intro column hcolumn
        obtain ⟨hlt, hnot⟩ := hdrawn column (List.mem_cons_of_mem first hcolumn)
        refine ⟨hlt, fun hin => ?_⟩
        rcases (hmem _).mp hin with heq | hin
        · rw [Int.ofNat.inj heq] at hcolumn
          exact hfirst hcolumn
        · exact hnot hin)
    refine ⟨columns', ?_, fun column => ?_⟩
    · rw [List.length_cons, List.flatMap_cons, List.append_assoc, rollColumns,
        rollColumn_diceFor hrange hnew]
      exact hroll
    · rw [hcolumns', hmem, List.map_cons, List.mem_cons]
      constructor
      · rintro ((h | h) | h)
        · exact .inr (.inl h)
        · exact .inl h
        · exact .inr (.inr h)
      · rintro (h | h | h)
        · exact .inl (.inr h)
        · exact .inl (.inl h)
        · exact .inr h

/-- So many different columns, and one of them this one. -/
theorem exists_columns {n column : Nat} (hn : 1 ≤ n ∧ n ≤ 8) (hcolumn : column < 8) :
    ∃ drawn : List Nat, drawn.length = n ∧ column ∈ drawn ∧ drawn.Nodup ∧
      ∀ other ∈ drawn, other < 8 := by
  have hothers : ((List.range 8).filter (· ≠ column)).length = 7 := by
    have hall : ∀ column < 8, ((List.range 8).filter (· ≠ column)).length = 7 := by decide
    exact hall column hcolumn
  have hsub : ∀ other ∈ ((List.range 8).filter (· ≠ column)).take (n - 1),
      other < 8 ∧ other ≠ column := by
    intro other hother
    obtain ⟨hrange, hne⟩ := List.mem_filter.mp (List.mem_of_mem_take hother)
    exact ⟨List.mem_range.mp hrange, by simpa using hne⟩
  refine ⟨column :: ((List.range 8).filter (· ≠ column)).take (n - 1), ?_, List.mem_cons_self,
    List.nodup_cons.mpr ⟨fun hin => (hsub column hin).2 rfl, ?_⟩, fun other hother => ?_⟩
  · rw [List.length_cons, List.length_take, hothers]
    omega
  · exact (List.nodup_range.filter _).sublist (List.take_sublist _ _)
  · rcases List.mem_cons.mp hother with rfl | hother
    · exact hcolumn
    · exact (hsub other hother).1

/-- Every column can be in a roll. -/
theorem exists_roll (hcount : 1 ≤ m.columnCount ∧ m.columnCount ≤ 8) {column : Nat}
    (hcolumn : column < 8) : ∃ random columns, m.roll random = some ({ m with columns }, []) ∧
      Int.ofNat column ∈ columns := by
  obtain ⟨drawn, hlength, hmem, hnodup, hrange⟩ :=
    exists_columns (n := m.columnCount.toNat) (by omega) hcolumn
  obtain ⟨columns, hroll, hcolumns⟩ := rollColumns_diceFor [] hnodup
    (fun other hother => ⟨hrange other hother, List.not_mem_nil⟩) []
  refine ⟨drawn.flatMap diceFor ++ [], columns, ?_,
    (hcolumns _).mpr (.inr (List.mem_map_of_mem hmem))⟩
  unfold Match.roll
  rw [← hlength, hroll, Option.map_some]

theorem anyCanMove_of_canMove (hcolumns : ∀ column ∈ m.columns, 0 ≤ column ∧ column < 8)
    (h : m.canMove = true) : m.anyCanMove = true := by
  obtain ⟨column, hcolumn, hrows⟩ := List.any_eq_true.mp h
  obtain ⟨hnonneg, hlt⟩ := hcolumns column hcolumn
  have heq : Int.ofNat column.toNat = column := Int.toNat_of_nonneg hnonneg
  refine List.any_eq_true.mpr ⟨column.toNat, List.mem_range.mpr (by omega), ?_⟩
  rw [heq]
  exact hrows

/-- Rolling again and again can come to an end if and only if there is a piece that can move. -/
theorem rerollUntilCanMove_iff (hcount : 1 ≤ m.columnCount ∧ m.columnCount ≤ 8) :
    (∃ random out, m.rerollUntilCanMove random = some out) ↔ m.anyCanMove = true := by
  constructor
  · rintro ⟨random, ⟨m', random'⟩, h⟩
    obtain ⟨columns, rfl, hcolumns, hcan⟩ := rerollUntilCanMove_spec h
    have hany := anyCanMove_of_canMove hcolumns.range hcan
    exact hany
  · intro hany
    obtain ⟨column, hcolumn, hrows⟩ := List.any_eq_true.mp hany
    obtain ⟨random, columns, hroll, hmem⟩ := exists_roll hcount (List.mem_range.mp hcolumn)
    have hcan : ({ m with columns } : Match).canMove = true :=
      List.any_eq_true.mpr ⟨_, hmem, hrows⟩
    refine ⟨random, ({ m with columns }, []), ?_⟩
    unfold Match.rerollUntilCanMove rollUntilCanMove
    rw [id, hroll, Option.bind_some]
    dsimp only
    rw [if_pos hcan]

end Rolls

/-! ## The loops of `afterMove` and of the start -/

/-- Who is to move behind the loop that `afterMove` begins with, if no turn is skipped. -/
def Match.sideAfter (m : Match) : Color :=
  if m.kind = .null then m.currentTurn else otherColor m.currentTurn

/-- Starting the match can come to an end. -/
def StartEnds (m : Match) : Prop := ∃ random out, m.start random = some out

section Loops

variable {m : Match}

theorem loopEnds_iff (hb : WellPlaced m.board) (hcount : 1 ≤ m.columnCount ∧ m.columnCount ≤ 8)
    (hnoSkip : m.noSkip = true) : LoopEnds m ↔ mobile m.board.look m.sideAfter = true := by
  unfold LoopEnds Match.handOver Match.sideAfter
  split
  · rw [rerollUntilCanMove_iff hcount, anyCanMove_eq hb]
  · unfold Match.nextTurn
    rw [hnoSkip]
    exact (rerollUntilCanMove_iff (m := m.invertTurn) hcount).trans
      (by rw [anyCanMove_eq (m := m.invertTurn) hb]; rfl)

theorem startEnds_iff (hb : WellPlaced m.board) (hcount : 1 ≤ m.columnCount ∧ m.columnCount ≤ 8) :
    StartEnds m ↔ mobile m.board.look m.currentTurn = true := by
  rw [← anyCanMove_eq hb]
  unfold StartEnds Match.start
  dsimp only
  split
  · exact rerollUntilCanMove_iff (m := { m with started := true }) hcount
  · exact rerollUntilCanMove_iff (m := ({ m with started := true } : Match).endMatch) hcount

end Loops

/-! ## After a move, and at the start -/

section Ends

variable {m : Match} {player : Role} {move : Move} {piece : Piece} {target : Option Piece}

theorem play_loopEnds_iff (hb : WellPlaced m.board)
    (hcount : 1 ≤ m.columnCount ∧ m.columnCount ≤ 8) (hnoSkip : m.noSkip = true)
    (hcheck : m.checkMove player move = .ok (piece, target)) :
    LoopEnds (m.play piece target move.toSquare) ↔
      mobile (lookAfter m.board.look move) m.sideAfter = true := by
  have haccepts := checkMove_ok hcheck
  obtain ⟨winnerColor, isOver, heq, -⟩ := play_eq m piece target move.toSquare
  have hloop := loopEnds_iff (m := m.play piece target move.toSquare)
    (by rw [heq]; exact boardAfter_wellPlaced hb haccepts) (by rw [heq]; exact hcount)
    (by rw [heq]; exact hnoSkip)
  rw [heq] at hloop ⊢
  rw [hloop, ← look_boardAfter hb haccepts]
  rfl

/-- Where the loop cannot end, `makeMove` never returns, whatever numbers come. -/
theorem makeMove_eq_none (hcheck : m.checkMove player move = .ok (piece, target))
    (hking : target.any (fun other => other.type = .king) = false)
    (hstuck : ¬LoopEnds (m.play piece target move.toSquare)) (random : List Nat) :
    m.makeMove player move random = none := by
  rw [Option.eq_none_iff_forall_ne_some]
  intro out hout
  unfold Match.makeMove makeMoveWithin at hout
  rw [hcheck] at hout
  dsimp only at hout
  rw [hking, if_neg Bool.false_ne_true] at hout
  obtain ⟨next, hnext⟩ := afterMove_handOver.1 out hout
  exact hstuck ⟨random, next, hnext⟩

/-- The pieces as `createMatch` places them can move, so every match it makes is made. -/
theorem Opening.create_returns (o : Opening) (client : Int) (address : Nat) :
    ∃ random out, o.create client address random = some out := by
  unfold Opening.create Match.startIfReady
  split
  · have hb : WellPlaced (o.hosted client address).board := placePieces_wellPlaced _
    refine (startEnds_iff hb o.columnCount_range).mpr ?_
    have hstart : ∀ color, mobile (o.hosted client address).board.look color = true := by
      intro color
      cases color <;> rfl
    exact hstart _
  · exact ⟨[], _, rfl⟩

/-- In a match without skipped turns, the loop behind an accepted move that captures no king can
    end if and only if the side to move behind it can take a step in the position after the move;
    and a start can come to an end if and only if the side that begins can take one. -/
theorem rolls_end_iff (hb : WellPlaced m.board)
    (hcount : 1 ≤ m.columnCount ∧ m.columnCount ≤ 8) :
    (m.noSkip = true → ∀ player move piece target,
      m.checkMove player move = .ok (piece, target) →
      target.any (fun other => other.type = .king) = false →
      (LoopEnds (m.play piece target move.toSquare) ↔
        mobile (lookAfter m.board.look move) m.sideAfter = true)) ∧
    (StartEnds m ↔ mobile m.board.look m.currentTurn = true) :=
  ⟨fun hnoSkip _ _ _ _ hcheck _ => play_loopEnds_iff hb hcount hnoSkip hcheck,
    startEnds_iff hb hcount⟩

end Ends

/-! ## A blocked side -/

/-- Black's pieces stand in a corner, in each other's way, and White's king is next to them. -/
def corner : Board :=
  [(PieceType.king, Color.black, (⟨7, 0⟩ : Square)), (.rook, .black, ⟨7, 1⟩),
    (.bishop, .black, ⟨7, 2⟩), (.pawn, .black, ⟨6, 0⟩), (.pawn, .black, ⟨6, 1⟩),
    (.pawn, .black, ⟨6, 3⟩), (.king, .white, ⟨7, 4⟩)].foldl
      (fun b x => b.set x.1 x.2.1 x.2.2) ⟨0, fun _ => none⟩

/-- What has been captured on the way there. -/
def lost : List Piece :=
  [(PieceType.pawn, Color.white, 8), (.rook, .white, 2), (.knight, .white, 2),
    (.bishop, .white, 2), (.queen, .white, 1), (.pawn, .black, 5), (.rook, .black, 1),
    (.knight, .black, 2), (.bishop, .black, 1), (.queen, .black, 1)].flatMap
      fun x => List.replicate x.2.2 ⟨x.1, x.2.1, ⟨4, 4⟩, 0⟩

/-- White is to move, in any column. -/
def cornered : Match where
  kind := .human
  matchID := ascii "corner"
  noSkip := true
  host := some (.human 1)
  guest := some (.human 2)
  currentTurn := .white
  hostColor := .white
  board := corner
  winnerColor := none
  columnCount := 8
  columns := [0, 1, 2, 3, 4, 5, 6, 7]
  started := true
  isOver := false
  captured := lost
  spectators := []

theorem corner_wellPlaced : WellPlaced corner := by
  unfold corner
  refine List.foldlRecOn (motive := WellPlaced) _ _ (fun _ _ h => nomatch h) ?_
  intro b hb x hx
  refine hb.set x.1 x.2.1 ?_
  revert x
  decide

theorem cornered_sound : Sound cornered where
  wellPlaced := corner_wellPlaced
  pieces := rfl
  promoted := by
    have hall : ∀ s ∈ squares, ∀ color ∈ [Color.black, .white], s.row = lastRow color →
        ((corner.pieceAt s).any fun piece => piece.type = .pawn && piece.color = color) =
          false := by
      decide
    intro color s hrow piece hpiece hpawn
    have hnone := hall s (mem_squares.mpr (onBoard_of_pieceAt hpiece)) color
      (by cases color <;> decide) hrow
    rw [show corner.pieceAt s = some piece from hpiece, Option.any_some, hpawn.1, hpawn.2] at hnone
    simp at hnone
  kings _ color := by cases color <;> rfl
  columns _ := by decide

/-- White's king steps in front of the last black pawn that could move, and the server rolls
    forever. -/
theorem not_loopEnds_cornered : Sound cornered ∧ ∃ piece,
    cornered.checkMove .host ⟨⟨7, 4⟩, ⟨7, 3⟩⟩ = .ok (piece, none) ∧
      ¬LoopEnds (cornered.play piece none ⟨7, 3⟩) ∧
      ∀ random, cornered.makeMove .host ⟨⟨7, 4⟩, ⟨7, 3⟩⟩ random = none := by
  have hcheck : cornered.checkMove .host ⟨⟨7, 4⟩, ⟨7, 3⟩⟩ =
      .ok (⟨.king, .white, ⟨7, 4⟩, 0⟩, none) := by rfl
  have hstuck : ¬LoopEnds (cornered.play ⟨.king, .white, ⟨7, 4⟩, 0⟩ none ⟨7, 3⟩) := by
    rw [play_loopEnds_iff corner_wellPlaced (by decide) rfl hcheck]
    decide
  exact ⟨cornered_sound, _, hcheck, hstuck, makeMove_eq_none hcheck rfl hstuck⟩

/-- White's king steps away instead, and Black has a move. -/
theorem rolls_end_iff_cornered :
    LoopEnds (cornered.play ⟨.king, .white, ⟨7, 4⟩, 0⟩ none ⟨7, 5⟩) ∧ StartEnds cornered := by
  have hcheck : cornered.checkMove .host ⟨⟨7, 4⟩, ⟨7, 5⟩⟩ =
      .ok (⟨.king, .white, ⟨7, 4⟩, 0⟩, none) := by rfl
  obtain ⟨hloop, hstart⟩ := rolls_end_iff (m := cornered) corner_wellPlaced (by decide)
  exact ⟨(hloop rfl .host _ _ _ hcheck rfl).mpr (by decide),
    hstart.mpr (by decide)⟩

end Algiz.ProbChess
