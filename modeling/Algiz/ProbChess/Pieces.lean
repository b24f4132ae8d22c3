/-
  The pieces and the columns of a match.

  The position is kept twice, in the array and in the pieces, and both agree. No piece is lost: what
  is not on the board is in `captured`. Pawns that arrive are queens, each color has its king until
  the match is won, and a roll draws as many columns as the match was asked for. `Sound` says this
  of one match; `Played.sound` says it of every match between two requests.
-/
import Algiz.ProbChess.Game

namespace Algiz.ProbChess

open Match Board

/-! ## Promotion -/

section Promotion

variable {b : Board} {color : Color} {s t : Square} {row : Int} {p : Piece → Bool}

/-- No pawn of the color stands on the square. -/
def NoPawn (color : Color) (b : Board) (s : Square) : Prop :=
  ∀ piece, b.pieceAt s = some piece → ¬(piece.type = .pawn ∧ piece.color = color)

/-- A property of pieces that neither moving nor promotion changes. -/
structure Steady (p : Piece → Bool) : Prop where
  moved : ∀ piece square, p { piece with square := square } = p piece
  promoted : ∀ piece : Piece, piece.type = .pawn →
    ∀ parent, p ⟨.queen, piece.color, piece.square, parent⟩ = p piece

theorem promote_wellPlaced (hb : WellPlaced b) (color : Color) (s : Square) :
    WellPlaced (promote color b s) := by
  unfold promote
  split
  · exact hb
  · rename_i piece hpiece
    split
    · exact (hb.put_none piece.square).set .queen color (onBoard_of_pieceAt hpiece)
    · exact hb

theorem promote_count (hp : Steady p) (hb : WellPlaced b) (color : Color) (s : Square) :
    (promote color b s).count p = b.count p := by
  unfold promote
  split
  · rfl
  · rename_i piece hpiece
    split
    · rename_i hpawn
      have hon := onBoard_of_pieceAt hpiece
      have hsquare := hb.square_eq hpiece
      have hqueen := hp.promoted piece hpawn.1 b.self
      rw [hpawn.2, hsquare] at hqueen
      have herase := count_put (b := b) p hon none
      have hset := count_put (b := b.put s none) p hon (some ⟨.queen, color, s, b.self⟩)
      rw [hpiece, Option.any_some, Option.any_none] at herase
      rw [pieceAt_put_self hon, Option.any_some, Option.any_none, hqueen] at hset
      unfold Board.erase Board.set
      rw [hsquare, put_self]
      omega
    · rfl

theorem promote_noPawn_self (color : Color) (b : Board) (s : Square) :
    NoPawn color (promote color b s) s := by
  intro other hother
  unfold promote at hother
  split at hother
  · rename_i hnone
    rw [hnone] at hother
    exact nomatch hother
  · rename_i piece hpiece
    split at hother
    · unfold Board.set at hother
      rw [pieceAt_put_self (onBoard_of_pieceAt hpiece)] at hother
      obtain rfl := Option.some.inj hother
      exact fun hpawn => nomatch hpawn.1
    · rename_i hnot
      rw [hpiece] at hother
      obtain rfl := Option.some.inj hother
      exact hnot

theorem promote_noPawn {color' : Color} (hb : WellPlaced b) (h : NoPawn color' b t) :
    NoPawn color' (promote color b s) t := by
  intro other hother
  unfold promote at hother
  split at hother
  · exact h other hother
  · rename_i piece hpiece
    split at hother
    · unfold Board.set Board.erase at hother
      rw [hb.square_eq hpiece] at hother
      obtain rfl | hts := eq_or_ne t s
      · rw [pieceAt_put_self (onBoard_of_pieceAt hpiece)] at hother
        obtain rfl := Option.some.inj hother
        exact fun hpawn => nomatch hpawn.1
      · rw [pieceAt_put_of_ne hts, pieceAt_put_of_ne hts] at hother
        exact h other hother
    · exact h other hother

/-- What one promotion keeps, a row of them keeps. -/
theorem promoteRow_rule {P : Board → Prop} (h : ∀ b s, P b → P (promote color b s)) (row : Int)
    (hb : P b) : P (promoteRow color row b) := by
  unfold promoteRow
  exact List.foldlRecOn (List.range 8) _ hb fun b hb column _ => h b _ hb

/-- After its promotions, no pawn of the color is left in the row. -/
theorem promoteRow_noPawn (hb : WellPlaced b) (hrow : s.row = row) :
    NoPawn color (promoteRow color row b) s := by
  have hfold : ∀ (columns : List Nat) (b : Board), WellPlaced b → ∀ column ∈ columns,
      NoPawn color (columns.foldl
        (fun b column => promote color b ⟨row, Int.ofNat column⟩) b) ⟨row, Int.ofNat column⟩ := by
    intro columns
    induction columns with
    | nil => exact fun b hb column hmem => absurd hmem List.not_mem_nil
    | cons first columns ih =>
      intro b hb column hmem
      have hfirst := promote_wellPlaced hb color ⟨row, Int.ofNat first⟩
      rcases List.mem_cons.mp hmem with rfl | hmem
      · rw [List.foldl_cons]
        refine (List.foldlRecOn (motive := fun b => WellPlaced b ∧ NoPawn color b _) columns _
          ⟨hfirst, promote_noPawn_self color b _⟩ ?_).2
        exact fun b hb column _ => ⟨promote_wellPlaced hb.1 color _, promote_noPawn hb.1 hb.2⟩
      · exact ih _ hfirst column hmem
  intro piece hpiece
  have hon := onBoard_of_pieceAt hpiece
  unfold Square.onBoard at hon
  simp only [Bool.and_eq_true, decide_eq_true_eq] at hon
  have hsquare : s = ⟨row, Int.ofNat s.column.toNat⟩ := by
    have hcolumn : Int.ofNat s.column.toNat = s.column := Int.toNat_of_nonneg hon.1.2
    rw [hcolumn, ← hrow]
  have hcolumn : s.column.toNat ∈ List.range 8 := List.mem_range.mpr (by omega)
  have hnone := hfold (List.range 8) b hb s.column.toNat hcolumn
  rw [← hsquare] at hnone
  exact hnone piece hpiece

theorem checkPawns_rule {P : Board → Prop} (h : ∀ color b s, P b → P (promote color b s))
    (hb : P b) : P (checkPawns b) :=
  promoteRow_rule (h .black) 7 (promoteRow_rule (h .white) 0 hb)

theorem checkPawns_wellPlaced (hb : WellPlaced b) : WellPlaced (checkPawns b) :=
  checkPawns_rule (fun color _ s hb => promote_wellPlaced hb color s) hb

theorem checkPawns_count (hp : Steady p) (hb : WellPlaced b) :
    (checkPawns b).count p = b.count p :=
  (checkPawns_rule (P := fun x => WellPlaced x ∧ x.count p = b.count p)
    (fun color _ s hx =>
      ⟨promote_wellPlaced hx.1 color s, (promote_count hp hx.1 color s).trans hx.2⟩) ⟨hb, rfl⟩).2

/-- The row where a color's pawns become queens. -/
def lastRow : Color → Int
  | .white => 0
  | .black => 7

theorem checkPawns_noPawn (hb : WellPlaced b) (hrow : s.row = lastRow color) :
    NoPawn color (checkPawns b) s := by
  have hwhite : WellPlaced (promoteRow .white 0 b) :=
    promoteRow_rule (P := WellPlaced) (fun _ s hb => promote_wellPlaced hb .white s) 0 hb
  cases color with
  | black => exact promoteRow_noPawn hwhite hrow
  | white =>
    refine (promoteRow_rule (P := fun x => WellPlaced x ∧ NoPawn .white x s) ?_ 7
      ⟨hwhite, promoteRow_noPawn hb hrow⟩).2
    exact fun x t hx => ⟨promote_wellPlaced hx.1 .black t, promote_noPawn hx.1 hx.2⟩

end Promotion

/-! ## A move -/

section Counts

variable {b : Board} {s t : Square} {piece : Piece} {p : Piece → Bool}

/-- Taking a piece off the board counts one less. -/
theorem erase_count (hb : WellPlaced b) (hpiece : b.pieceAt s = some piece) (p : Piece → Bool) :
    (b.erase piece).count p + (p piece).toNat = b.count p := by
  have hcount := count_put (b := b) p (onBoard_of_pieceAt hpiece) none
  rw [hpiece, Option.any_some, Option.any_none, Bool.toNat_false] at hcount
  unfold Board.erase
  rw [hb.square_eq hpiece]
  omega

/-- A move to a free square counts the same. -/
theorem move_count (hp : Steady p) (hb : WellPlaced b) (hpiece : b.pieceAt s = some piece)
    (ht : t.onBoard = true) (hst : s ≠ t) (hfree : b.pieceAt t = none) :
    (b.move piece t).count p = b.count p := by
  have hset := count_put (b := b) p ht (some { piece with square := t })
  have hclear := count_put (b := b.put t (some { piece with square := t })) p
    (onBoard_of_pieceAt hpiece) none
  rw [hfree, Option.any_none, Option.any_some, hp.moved] at hset
  rw [pieceAt_put_of_ne hst, hpiece, Option.any_some, Option.any_none] at hclear
  unfold Board.move
  rw [hb.square_eq hpiece]
  omega

end Counts

/-- Is the piece the king of the color? -/
def isKing (color : Color) (piece : Piece) : Bool := piece.type = .king && piece.color = color

theorem steady_any : Steady fun _ => true := ⟨fun _ _ => rfl, fun _ _ _ => rfl⟩

theorem steady_isKing (color : Color) : Steady (isKing color) := by
  refine ⟨fun _ _ => rfl, fun piece hpawn parent => ?_⟩
  unfold isKing
  rw [hpawn]
  rfl

/-- What holds of the pieces and the columns of a match. -/
structure Sound (m : Match) : Prop where
  /-- every piece in the array has its square, and this board as its parent -/
  wellPlaced : WellPlaced m.board
  /-- no piece is lost -/
  pieces : m.board.count (fun _ => true) + m.captured.length = 32
  /-- a pawn in its last row is a queen -/
  promoted : ∀ color s, s.row = lastRow color → NoPawn color m.board s
  /-- each color has one king until the match is won -/
  kings : m.winnerColor = none → ∀ color, m.board.count (isKing color) = 1
  /-- once a roll has completed, as many columns as were asked for are drawn -/
  columns : m.started = true ∨ m.columns ≠ [] →
    (m.columns.length : Int) = m.columnCount ∧ m.columns.Nodup ∧
      ∀ column ∈ m.columns, 0 ≤ column ∧ column < 8

section Play

variable {m : Match} {player : Role} {move : Move} {piece : Piece} {target : Option Piece}

/-- The board after the capture: the piece that moves is where it was, and its way is free. -/
theorem capture_board (hb : WellPlaced m.board) (h : Accepts m player move piece target) :
    WellPlaced (m.capture target).board ∧ (m.capture target).board.self = m.board.self ∧
      (m.capture target).board.pieceAt move.fromSquare = some piece ∧
      (m.capture target).board.pieceAt move.toSquare = none := by
  have htarget := h.target_eq
  cases target with
  | none => exact ⟨hb, rfl, h.source, htarget.symm⟩
  | some other =>
    have hsquare := hb.square_eq htarget.symm
    refine ⟨hb.put_none _, rfl, ?_, ?_⟩
    · show (m.board.put other.square none).pieceAt _ = _
      rw [hsquare, pieceAt_put_of_ne h.moves]
      exact h.source
    · show (m.board.put other.square none).pieceAt _ = _
      rw [hsquare, pieceAt_put_self (onBoard_of_pieceAt htarget.symm)]

theorem capture_count (hb : WellPlaced m.board) (h : Accepts m player move piece target)
    (p : Piece → Bool) :
    (m.capture target).board.count p + (target.any p).toNat = m.board.count p := by
  have htarget := h.target_eq
  cases target with
  | none => rfl
  | some other => exact erase_count hb htarget.symm p

theorem capture_captured (m : Match) (target : Option Piece) :
    (m.capture target).captured.length = m.captured.length + target.isSome.toNat := by
  cases target with
  | none => rfl
  | some other => exact List.length_append

theorem boardAfter_wellPlaced (hb : WellPlaced m.board) (h : Accepts m player move piece target) :
    WellPlaced (boardAfter m piece target move.toSquare) := by
  obtain ⟨hcapture, hself, hsource, -⟩ := capture_board hb h
  exact checkPawns_wellPlaced
    (hcapture.move (hcapture.parent_eq hsource) (onBoard_of_mem h.reaches))

theorem boardAfter_count {p : Piece → Bool} (hp : Steady p) (hb : WellPlaced m.board)
    (h : Accepts m player move piece target) :
    (boardAfter m piece target move.toSquare).count p + (target.any p).toNat = m.board.count p := by
  obtain ⟨hcapture, hself, hsource, hfree⟩ := capture_board hb h
  have hon := onBoard_of_mem h.reaches
  have hmoved : WellPlaced ((m.capture target).board.move piece move.toSquare) :=
    hcapture.move (hcapture.parent_eq hsource) hon
  unfold boardAfter
  rw [checkPawns_count hp hmoved, move_count hp hcapture hsource hon h.moves hfree]
  exact capture_count hb h p

/-- An accepted move keeps all of it. -/
theorem Sound.play (hm : Sound m) (h : Accepts m player move piece target) :
    Sound (m.play piece target move.toSquare) := by
  obtain ⟨winnerColor, isOver, heq, hwin⟩ := play_eq m piece target move.toSquare
  rw [heq]
  refine ⟨boardAfter_wellPlaced hm.wellPlaced h, ?_, ?_, ?_, hm.columns⟩
  · have hcount := boardAfter_count steady_any hm.wellPlaced h
    have hpieces := hm.pieces
    have hany : target.any (fun _ => true) = target.isSome := by cases target <;> rfl
    rw [hany] at hcount
    show (boardAfter m piece target move.toSquare).count _ + (m.capture target).captured.length = 32
    rw [capture_captured]
    omega
  · obtain ⟨hcapture, -, hsource, -⟩ := capture_board hm.wellPlaced h
    have hmoved := hcapture.move (hcapture.parent_eq hsource) (onBoard_of_mem h.reaches)
    exact fun color s hrow => checkPawns_noPawn hmoved hrow
  · intro hnone color
    obtain ⟨-, hwon, -⟩ | ⟨hking, hopen, -⟩ := hwin
    · rw [hwon] at hnone
      exact nomatch hnone
    have hcount := boardAfter_count (steady_isKing color) hm.wellPlaced h
    have hkings := hm.kings (hopen.symm.trans hnone) color
    have hany : target.any (isKing color) = false := by
      cases target with
      | none => rfl
      | some other =>
        unfold isKing
        rw [Option.any_some] at hking ⊢
        rw [hking]
        rfl
    rw [hany, Bool.toNat_false] at hcount
    show (boardAfter m piece target move.toSquare).count _ = 1
    omega

end Play

/-! ## Every match -/

/-- A computer player that looks for a move leaves the board as it was. -/
theorem chooseMove_board {m : Match} (hb : WellPlaced m.board) (hcan : m.canMove = true)
    {ai : AIPlayer} {random random' : List Nat} {chosen : Except Thrown Move} {board : Board}
    (h : ai.chooseMove m.board m.currentTurn m.columns random = some (chosen, board, random')) :
    board = m.board := by
  obtain ⟨move, hmove⟩ := hasMove_of_canMove hcan
  exact (AIPlayer.chooseMove_spec hb h hmove).1

theorem Rolled.columns {columnCount : Int} {columns : List Int} (h : Rolled columnCount columns)
    (hcount : 0 ≤ columnCount) :
    (columns.length : Int) = columnCount ∧ columns.Nodup ∧
      ∀ column ∈ columns, 0 ≤ column ∧ column < 8 :=
  ⟨by rw [h.length, Int.toNat_of_nonneg hcount], h.nodup, h.range⟩

theorem sound_kept : KeptInPlay fun m => 0 ≤ m.columnCount ∧ Sound m where
  play m player move piece target hm h := by
    obtain ⟨winnerColor, isOver, heq, -⟩ := play_eq m piece target move.toSquare
    refine ⟨?_, hm.2.play h⟩
    rw [heq]
    exact hm.1
  rolled m turn columns hm hcolumns :=
    ⟨hm.1, hm.2.wellPlaced, hm.2.pieces, hm.2.promoted, hm.2.kings,
      fun _ => hcolumns.columns hm.1⟩
  chosen m ai random chosen board random' hm hcan hchoose := by
    rw [chooseMove_board hm.2.wellPlaced hcan hchoose]
    exact hm
  participants m host guest spectators hm :=
    ⟨hm.1, hm.2.wellPlaced, hm.2.pieces, hm.2.promoted, hm.2.kings, hm.2.columns⟩
  ends m hm := ⟨hm.1, hm.2.wellPlaced, hm.2.pieces, hm.2.promoted, hm.2.kings, hm.2.columns⟩
  started m columns hm hcolumns :=
    ⟨hm.1, hm.2.wellPlaced, hm.2.pieces, hm.2.promoted, hm.2.kings,
      fun _ => hcolumns.columns hm.1⟩

section Placing

variable {b : Board}

theorem set_row_wellPlaced (color : Color) (row : Int) {l : List (PieceType × Nat)}
    (hl : ∀ x ∈ l, (⟨row, Int.ofNat x.2⟩ : Square).onBoard = true) (hb : WellPlaced b) :
    WellPlaced (l.foldl (fun b x => b.set x.1 color ⟨row, Int.ofNat x.2⟩) b) :=
  List.foldlRecOn (motive := WellPlaced) l _ hb fun _ hb x hx => hb.set x.1 color (hl x hx)

theorem placePieces_wellPlaced (b : Board) : WellPlaced b.placePieces := by
  have hempty : WellPlaced { b with pieces := fun _ => none } := fun s piece h => nomatch h
  have hblack := set_row_wellPlaced .black 0 (by decide)
    hempty (l := [PieceType.rook, .knight, .bishop, .queen, .king, .bishop, .knight, .rook].zipIdx)
  have hwhite := set_row_wellPlaced .white 7 (by decide)
    hblack (l := [PieceType.rook, .knight, .bishop, .queen, .king, .bishop, .knight, .rook].zipIdx)
  unfold placePieces
  refine List.foldlRecOn (motive := WellPlaced) (List.range 8) _ hwhite ?_
  intro b hb column hcolumn
  have hon : ∀ column ∈ List.range 8, (⟨1, Int.ofNat column⟩ : Square).onBoard = true ∧
      (⟨6, Int.ofNat column⟩ : Square).onBoard = true := by decide
  obtain ⟨hblackPawn, hwhitePawn⟩ := hon column hcolumn
  exact (hb.set .pawn .black hblackPawn).set .pawn .white hwhitePawn

/-- At first no pawn is anywhere near its last row. -/
theorem placePieces_noPawn (b : Board) {color : Color} {s : Square} (hrow : s.row = lastRow color) :
    NoPawn color b.placePieces s := by
  have hall : (squares.all fun s => [Color.black, .white].all fun color =>
      s.row ≠ lastRow color || !(b.placePieces.pieceAt s).any fun piece =>
        piece.type = .pawn && piece.color = color) = true := rfl
  intro piece hpiece hpawn
  have hsquare := List.all_eq_true.mp hall s (mem_squares.mpr (onBoard_of_pieceAt hpiece))
  have hcolor := List.all_eq_true.mp hsquare color (by cases color <;> decide)
  rw [hpiece, Option.any_some, hpawn.1, hpawn.2, hrow] at hcolor
  simp at hcolor

theorem placePieces_kings (b : Board) (color : Color) :
    b.placePieces.count (isKing color) = 1 := by
  cases color <;> rfl

end Placing

/-- With its host in, a match is sound. -/
theorem Opening.hosted_sound (o : Opening) (client : Int) (address : Nat) :
    Sound (o.hosted client address) where
  wellPlaced := placePieces_wellPlaced _
  pieces := rfl
  promoted _ _ hrow := placePieces_noPawn _ hrow
  kings _ color := placePieces_kings _ color
  columns h := h.elim (fun hstarted => nomatch hstarted) fun hne => absurd rfl hne

theorem Played.soundCount {m : Match} (hm : Played m) : 0 ≤ m.columnCount ∧ Sound m :=
  hm.rule sound_kept fun o client address =>
    ⟨le_trans (by decide) o.columnCount_range.1, o.hosted_sound client address⟩

/-- Between two requests, whatever was rolled and whoever moved, a match is sound. -/
theorem Played.sound {m : Match} (hm : Played m) : Sound m := hm.soundCount.2

/-- A match against nobody, one column a turn. -/
def practice : Opening where
  matchID := ascii "practice"
  columnCount := 1
  color := .white
  noSkip := false
  kind := .null
  guest := none
  columnCount_range := oneColumn_range
  isType := ⟨ascii "null", rfl⟩

theorem Played.sound_oneMove : ∃ m, ((practice.create 1 0 [0, 0]).bind fun (m, _) =>
    m.step (.move 1 ⟨⟨6, 1⟩, ⟨4, 1⟩⟩ [0, 0])) = some m ∧ Sound m := by
  have hsome : ((practice.create 1 0 [0, 0]).bind fun (m, _) =>
      m.step (.move 1 ⟨⟨6, 1⟩, ⟨4, 1⟩⟩ [0, 0])).isSome = true := by decide
  obtain ⟨m, hm⟩ := Option.isSome_iff_exists.mp hsome
  obtain ⟨⟨start, random'⟩, hcreate, hstep⟩ := Option.bind_eq_some_iff.mp hm
  have hstart : Played start := Created.played ⟨practice, 1, 0, _, _, hcreate⟩
  exact ⟨m, hm, Played.sound (hstart.step hstep)⟩

end Algiz.ProbChess
