/-
  Check and mate.

  `isAttacked` puts a rook of the other color on the square, asks all pieces of the color whether
  they can move there, and takes the rook away. So it tells whether a piece of the color covers the
  square (`isAttacked_iff`), as its comment has it, and leaves the board alone. `isInCheck` asks
  it about the king's own color: what it tells is whether the king is covered by its own pieces
  (`isInCheck_right_iff`). `isCheckmated` asks the same, and where the king has a way out the king
  is left there (`isCheckmated_keeps_iff`).
-/
import Algiz.ProbChess.Reach
import Algiz.ProbChess.Players

namespace Algiz.ProbChess

open Board

namespace Board

/-! ## The functions and the board they leave -/

/-- The loop of `isAttacked`. At both of its ends the old piece is put back. -/
def isAttackedLoop (old : Option Piece) (color : Color) (s : Square) (b : Board) :
    List Square → Bool × Board
  | [] => (false, b.put s old)
  | t :: rest =>
    if (b.pieceAt t).any fun piece => piece.color = color && (b.canMoveTo piece).contains s then
      (true, b.put s old)
    else isAttackedLoop old color s b rest

/-- `Board::isAttacked`, and the board that it leaves. -/
def runIsAttacked (b : Board) (color : Color) (s : Square) : Bool × Board :=
  isAttackedLoop (b.pieceAt s) color s (b.set .rook (otherColor color) s) squares

/-- `Board::isInCheck`, and the board that it leaves. -/
def runIsInCheck (b : Board) (color : Color) : Bool × Board :=
  match b.findKing color with
  | none => (false, b)
  | some king => b.runIsAttacked color king.square

end Board

/-! ## What is covered -/

/-- A piece could capture on a square, if there were something to capture. -/
def Covers (b : Board) (piece : Piece) (t : Square) : Prop :=
  if piece.type = .pawn then
    t.row = piece.square.row + forward piece.color ∧
      (t.column - piece.square.column).natAbs = 1
  else MayMove b piece t

/-- A piece of the color, other than what stands there, covers a square. -/
def CoveredBy (b : Board) (color : Color) (s : Square) : Prop :=
  ∃ t piece, t ≠ s ∧ b.pieceAt t = some piece ∧ piece.color = color ∧ Covers b piece s

section Attacks

variable {b : Board} {color : Color} {s t : Square} {piece king : Piece}

theorem otherColor_ne (color : Color) : otherColor color ≠ color := by cases color <;> decide

theorem put_put_self (b : Board) (s : Square) (x y : Option Piece) :
    (b.put s x).put s y = b.put s y := by
  unfold put
  dsimp only
  rw [Function.update_idem]

theorem put_pieceAt (hs : s.onBoard = true) : b.put s (b.pieceAt s) = b := by
  unfold put
  rw [pieceAt_of_onBoard hs, Function.update_eq_self]

theorem isAttackedLoop_eq (old : Option Piece) (ts : List Square) :
    isAttackedLoop old color s b ts = (ts.any fun t => (b.pieceAt t).any fun piece =>
      piece.color = color && (b.canMoveTo piece).contains s, b.put s old) := by
  induction ts with
  | nil => rfl
  | cons t ts ih =>
    unfold isAttackedLoop
    rw [List.any_cons]
    split
    · rename_i hattacks
      rw [hattacks, Bool.true_or]
    · rename_i hattacks
      rw [(Bool.not_eq_true _).mp hattacks, Bool.false_or, ih]

/-- The board is as it was. -/
theorem runIsAttacked_eq (hs : s.onBoard = true) :
    b.runIsAttacked color s = (b.isAttacked color s, b) := by
  unfold runIsAttacked isAttacked Board.set
  rw [isAttackedLoop_eq, put_put_self, put_pieceAt hs]

/-- What stands on a square does not count for who sees it. -/
theorem sees_put {d : Int × Int} (hd : IsUnit d) (x : Option Piece) :
    Sees (b.put t x) d s t ↔ Sees b d s t := by
  unfold Sees
  refine exists_congr fun n => and_congr_right fun hpos => and_congr_right fun ht => ?_
  refine forall_congr' fun i => imp_congr_right fun hi => imp_congr_right fun hlt => ?_
  rw [pieceAt_put_of_ne]
  intro heq
  have hsame := (along_injective hd hd hi hpos (heq.trans ht)).2
  omega

theorem covers_put (x : Option Piece) : Covers (b.put t x) piece t ↔ Covers b piece t := by
  unfold Covers
  split
  · rfl
  · rename_i htype
    unfold MayMove
    dsimp only
    cases hcase : piece.type with
    | pawn => exact absurd hcase htype
    | knight => rfl
    | king => rfl
    | rook =>
      exact exists_congr fun d => and_congr_right fun hd => sees_put hd.isUnit x
    | bishop =>
      exact exists_congr fun d => and_congr_right fun hd => sees_put hd.isUnit x
    | queen =>
      refine exists_congr fun d => and_congr_right fun hd => sees_put ?_ x
      exact hd.elim Straight.isUnit Diagonal.isUnit

/-- A piece can move to a square that the other color holds, if and only if it covers the square. -/
theorem mem_canMoveTo_of_held {other : Piece} (hs : piece.square.onBoard = true)
    (hother : b.pieceAt t = some other) (hcolor : other.color ≠ piece.color) :
    t ∈ b.canMoveTo piece ↔ Covers b piece t := by
  have hfree : ∀ held, b.pieceAt t = some held → held.color ≠ piece.color := by
    intro held hheld
    rwa [← Option.some.inj (hother.symm.trans hheld)]
  rw [mem_canMoveTo hs, and_iff_right (onBoard_of_pieceAt hother), and_iff_right hfree]
  unfold Covers
  split
  · rename_i htype
    unfold MayMove
    dsimp only
    rw [htype]
    constructor
    · intro hmay
      cases hmay with
      | ahead hnext => exact nomatch hnext.symm.trans hother
      | twoAhead _ _ hahead => exact nomatch hahead.symm.trans hother
      | captures hrow hcolumn _ _ => exact ⟨hrow, hcolumn⟩
    · rintro ⟨hrow, hcolumn⟩
      exact .captures hrow hcolumn hother hcolor
  · rfl

/-- A square could be attacked by the color if and only if a piece of the color covers it. -/
theorem isAttacked_iff (hb : WellPlaced b) (hs : s.onBoard = true) :
    b.isAttacked color s = true ↔ CoveredBy b color s := by
  have hrook : (b.set .rook (otherColor color) s).pieceAt s =
      some ⟨.rook, otherColor color, s, b.self⟩ := pieceAt_put_self hs _
  have helsewhere : ∀ t, t ≠ s → (b.set .rook (otherColor color) s).pieceAt t = b.pieceAt t :=
    fun t ht => pieceAt_put_of_ne ht _
  have hmoves : ∀ t piece, b.pieceAt t = some piece → piece.color = color →
      (s ∈ (b.set .rook (otherColor color) s).canMoveTo piece ↔ Covers b piece s) := by
    intro t piece hpiece hcolor
    have hsquare : piece.square.onBoard = true := by
      rw [hb.square_eq hpiece]
      exact onBoard_of_pieceAt hpiece
    rw [mem_canMoveTo_of_held hsquare hrook (hcolor ▸ otherColor_ne _)]
    exact covers_put _
  unfold isAttacked
  dsimp only
  rw [List.any_eq_true]
  constructor
  · rintro ⟨t, -, hany⟩
    obtain ⟨piece, hpiece, hattacks⟩ := (Option.any_eq_true _ _).mp hany
    rw [Bool.and_eq_true, decide_eq_true_eq, List.contains_iff_mem] at hattacks
    by_cases ht : t = s
    · -- the rook is not of this color
      rw [ht, hrook, Option.some.injEq] at hpiece
      rw [← hpiece] at hattacks
      exact absurd hattacks.1 (otherColor_ne color)
    · rw [helsewhere t ht] at hpiece
      exact ⟨t, piece, ht, hpiece, hattacks.1, (hmoves t piece hpiece hattacks.1).mp hattacks.2⟩
  · rintro ⟨t, piece, ht, hpiece, hcolor, hcovers⟩
    refine ⟨t, mem_squares.mpr (onBoard_of_pieceAt hpiece), ?_⟩
    rw [helsewhere t ht, hpiece, Option.any_some, Bool.and_eq_true, decide_eq_true_eq,
      List.contains_iff_mem]
    exact ⟨hcolor, (hmoves t piece hpiece hcolor).mpr hcovers⟩

/-! ## Check -/

theorem findKing_spec (hb : WellPlaced b) (h : b.findKing color = some king) :
    b.pieceAt king.square = some king ∧ king.color = color ∧ king.type = .king := by
  unfold findKing at h
  obtain ⟨s, -, hfind⟩ := List.exists_of_findSome?_eq_some h
  obtain ⟨hking, hchosen⟩ := Option.filter_eq_some_iff.mp hfind
  rw [Bool.and_eq_true, decide_eq_true_eq, decide_eq_true_eq] at hchosen
  rw [hb.square_eq hking]
  exact ⟨hking, hchosen⟩

/-- `isInCheck` returns true if a piece of the other color has the king's square among its moves,
    and then only, and the board is as it was. -/
structure ChecksRight (b : Board) (color : Color) (king : Piece) : Prop where
  right : (b.runIsInCheck color).1 = true ↔
    ∃ t piece, b.pieceAt t = some piece ∧ piece.color = otherColor color ∧
      king.square ∈ b.canMoveTo piece
  unchanged : (b.runIsInCheck color).2 = b

/-- A king is attacked by the pieces of the other color that cover its square. -/
theorem attackers_iff (hb : WellPlaced b) (hking : b.pieceAt king.square = some king) :
    (∃ t piece, b.pieceAt t = some piece ∧ piece.color = otherColor king.color ∧
      king.square ∈ b.canMoveTo piece) ↔ CoveredBy b (otherColor king.color) king.square := by
  have hmoves : ∀ t piece, b.pieceAt t = some piece → piece.color = otherColor king.color →
      (king.square ∈ b.canMoveTo piece ↔ Covers b piece king.square) := by
    intro t piece hpiece hcolor
    refine mem_canMoveTo_of_held ?_ hking (hcolor ▸ (otherColor_ne _).symm)
    rw [hb.square_eq hpiece]
    exact onBoard_of_pieceAt hpiece
  constructor
  · rintro ⟨t, piece, hpiece, hcolor, hmem⟩
    refine ⟨t, piece, ?_, hpiece, hcolor, (hmoves t piece hpiece hcolor).mp hmem⟩
    rintro rfl
    rw [hking, Option.some.injEq] at hpiece
    rw [← hpiece] at hcolor
    exact otherColor_ne _ hcolor.symm
  · rintro ⟨t, piece, -, hpiece, hcolor, hcovers⟩
    exact ⟨t, piece, hpiece, hcolor, (hmoves t piece hpiece hcolor).mpr hcovers⟩

/-- `isInCheck` leaves the board alone, and is right if and only if the king's own color covers its
    square just in case the other color does. -/
theorem isInCheck_right_iff (hb : WellPlaced b) (hking : b.findKing color = some king) :
    ChecksRight b color king ↔
      (CoveredBy b color king.square ↔ CoveredBy b (otherColor color) king.square) := by
  obtain ⟨hat, rfl, -⟩ := findKing_spec hb hking
  have hs := onBoard_of_pieceAt hat
  have hrun : b.runIsInCheck king.color = (b.isAttacked king.color king.square, b) := by
    unfold runIsInCheck
    rw [hking]
    exact runIsAttacked_eq hs
  have hright : ((b.runIsInCheck king.color).1 = true ↔ ∃ t piece, b.pieceAt t = some piece ∧
      piece.color = otherColor king.color ∧ king.square ∈ b.canMoveTo piece) ↔
        (CoveredBy b king.color king.square ↔
          CoveredBy b (otherColor king.color) king.square) := by
    rw [hrun, isAttacked_iff hb hs, attackers_iff hb hat]
  exact ⟨fun h => hright.mp h.right, fun h => ⟨hright.mpr h, congrArg Prod.snd hrun⟩⟩

/-- A board without pieces. -/
def emptyBoard : Board := { self := 0, pieces := fun _ => none }

theorem emptyBoard_wellPlaced : WellPlaced emptyBoard := fun _ _ h => nomatch h

/-- A king in the corner, and nothing else. -/
def loneKing : Board := emptyBoard.set .king .black ⟨0, 0⟩

theorem loneKing_wellPlaced : WellPlaced loneKing :=
  emptyBoard_wellPlaced.set .king .black (by decide)

/-- In the king's row stands a rook of its color, with another one beside, and in its column one of
    the other color. -/
def amongRooks : Board :=
  ((loneKing.set .rook .black ⟨0, 7⟩).set .rook .black ⟨1, 7⟩).set .rook .white ⟨7, 0⟩

theorem amongRooks_wellPlaced : WellPlaced amongRooks :=
  ((loneKing_wellPlaced.set .rook .black (by decide)).set .rook .black (by decide)).set .rook
    .white (by decide)

theorem amongRooks_covered (color : Color) : CoveredBy amongRooks color ⟨0, 0⟩ := by
  refine (isAttacked_iff amongRooks_wellPlaced (by decide)).mp ?_
  cases color <;> decide

/-- Both colors cover the king's square, and there is a check. -/
theorem isInCheck_right_iff_covered : (amongRooks.runIsInCheck .black).1 = true ∧
    ChecksRight amongRooks .black ⟨.king, .black, ⟨0, 0⟩, 0⟩ :=
  ⟨by decide, (isInCheck_right_iff amongRooks_wellPlaced (by decide)).mpr
    (iff_of_true (amongRooks_covered _) (amongRooks_covered _))⟩

/-- A king and a rook of the other color on one row. -/
def rookCheck : Board := loneKing.set .rook .white ⟨0, 7⟩

/-- The rook can capture the king, and there is no check. -/
theorem rookCheck_wrong : WellPlaced rookCheck ∧
    rookCheck.findKing .black = some ⟨.king, .black, ⟨0, 0⟩, 0⟩ ∧
    ⟨0, 0⟩ ∈ rookCheck.canMoveTo ⟨.rook, .white, ⟨0, 7⟩, 0⟩ ∧
    (rookCheck.runIsInCheck .black).1 = false ∧
    ¬ChecksRight rookCheck .black ⟨.king, .black, ⟨0, 0⟩, 0⟩ := by
  have hmoves : (⟨0, 0⟩ : Square) ∈ rookCheck.canMoveTo ⟨.rook, .white, ⟨0, 7⟩, 0⟩ := by
    decide
  have hfalse : (rookCheck.runIsInCheck .black).1 = false := by decide
  refine ⟨loneKing_wellPlaced.set .rook .white (by decide), by decide, hmoves, hfalse, ?_⟩
  intro h
  rw [h.right.mpr ⟨⟨0, 7⟩, _, by decide, by decide, hmoves⟩] at hfalse
  exact Bool.noConfusion hfalse

/-! ## Mate -/

/-- The same pieces on the same squares: kind, color and stored square. -/
def SamePosition (b other : Board) : Prop :=
  ∀ s, (other.pieceAt s).map (fun piece => (piece.type, piece.color, piece.square)) =
    (b.pieceAt s).map fun piece => (piece.type, piece.color, piece.square)

/-- `isCheckmated` leaves the position, and what is asked about check behind it is asked of this
    position. -/
structure KeepsPosition (b : Board) (address : Nat) (color : Color) : Prop where
  position : SamePosition b (b.isCheckmated address color).2
  inCheck : ∀ other, (b.isCheckmated address color).2.isInCheck other = b.isInCheck other

/-- The king's own color covers its square, and the king can move to a square that it does not
    cover then. -/
def HasWayOut (b : Board) (color : Color) : Prop :=
  ∃ king, b.findKing color = some king ∧ CoveredBy b color king.square ∧
    ∃ s ∈ b.canMoveTo king, ¬CoveredBy (b.move king s) color s

/-- The loop over the king's moves ends with the board as it was, or with the king where it is not
    covered. -/
theorem isCheckmatedLoop_cases (hb : WellPlaced b) (color : Color) (address : Nat)
    (ss : List Square) :
    (isCheckmatedLoop color (b.copy address) king.square ss king b =
        (true, b) ∧ ∀ s ∈ ss, (b.move king s).isAttacked color s = true) ∨
      ∃ s ∈ ss, (b.move king s).isAttacked color s = false ∧
        isCheckmatedLoop color (b.copy address) king.square ss king b =
          (false, b.move king s) := by
  induction ss with
  | nil => exact .inl ⟨rfl, fun s hs => absurd hs List.not_mem_nil⟩
  | cons s ss ih =>
    unfold isCheckmatedLoop
    dsimp only
    cases hattacked : (b.move king s).isAttacked color s with
    | false => exact .inr ⟨s, List.mem_cons_self, hattacked, rfl⟩
    | true =>
      -- the move is taken back
      have hback : (b.move king s).assign (b.copy address) = b := hb.assign_copy _ rfl address
      rw [hback]
      rcases ih with ⟨hloop, hall⟩ | ⟨s', hs', hfree, hloop⟩
      · refine .inl ⟨hloop, fun s' hs' => ?_⟩
        rcases List.mem_cons.mp hs' with rfl | hs'
        · exact hattacked
        · exact hall s' hs'
      · exact .inr ⟨s', List.mem_cons_of_mem s hs', hfree, hloop⟩

theorem move_covered (hb : WellPlaced b) (hking : b.pieceAt king.square = some king)
    (hs : s ∈ b.canMoveTo king) :
    (b.move king s).isAttacked color s = true ↔ CoveredBy (b.move king s) color s := by
  have hon := ((mem_canMoveTo (onBoard_of_pieceAt hking)).mp hs).1
  exact isAttacked_iff (hb.move (hb.parent_eq hking) hon) hon

/-- `isCheckmated` leaves the board as it was, or the king where it is not covered. -/
theorem isCheckmated_cases (hb : WellPlaced b) (address : Nat) (color : Color) :
    (¬HasWayOut b color ∧ (b.isCheckmated address color).2 = b) ∨
      (HasWayOut b color ∧ ∃ king s, b.pieceAt king.square = some king ∧
        s ∈ b.canMoveTo king ∧ (b.isCheckmated address color).2 = b.move king s) := by
  unfold isCheckmated
  cases hfind : b.findKing color with
  | none =>
    refine .inl ⟨?_, rfl⟩
    rintro ⟨king, hking, -⟩
    exact nomatch hfind.symm.trans hking
  | some king =>
    obtain ⟨hat, -, -⟩ := findKing_spec hb hfind
    have hwayOut : HasWayOut b color ↔ CoveredBy b color king.square ∧
        ∃ s ∈ b.canMoveTo king, ¬CoveredBy (b.move king s) color s := by
      unfold HasWayOut
      rw [hfind]
      simp only [Option.some.injEq, exists_eq_left']
    rw [hwayOut]
    dsimp only
    cases hattacked : b.isAttacked color king.square with
    | false =>
      refine .inl ⟨fun h => ?_, rfl⟩
      rw [← isAttacked_iff hb (onBoard_of_pieceAt hat), hattacked] at h
      exact Bool.noConfusion h.1
    | true =>
      have hcovered := (isAttacked_iff hb (onBoard_of_pieceAt hat)).mp hattacked
      rcases isCheckmatedLoop_cases hb color address (b.canMoveTo king) with
        ⟨hloop, hall⟩ | ⟨s, hs, hfree, hloop⟩
      · refine .inl ⟨?_, congrArg Prod.snd hloop⟩
        rintro ⟨-, s, hs, hnot⟩
        exact hnot ((move_covered hb hat hs).mp (hall s hs))
      · refine .inr ⟨⟨hcovered, s, hs, fun hcovers => ?_⟩, king, s, hat, hs,
          congrArg Prod.snd hloop⟩
        rw [(move_covered hb hat hs).mpr hcovers] at hfree
        exact Bool.noConfusion hfree

/-- After a move the old square is empty. -/
theorem not_samePosition_move (hking : b.pieceAt king.square = some king) :
    ¬SamePosition b (b.move king s) := by
  intro hsame
  have hat := hsame king.square
  unfold Board.move at hat
  rw [pieceAt_put_self (onBoard_of_pieceAt hking), hking] at hat
  exact nomatch hat

/-- `isCheckmated` keeps the position if and only if the king has no way out. -/
theorem isCheckmated_keeps_iff (hb : WellPlaced b) (address : Nat) (color : Color) :
    KeepsPosition b address color ↔ ¬HasWayOut b color := by
  rcases isCheckmated_cases hb address color with ⟨hnone, hleft⟩ | ⟨hwayOut, king, s, hat, -, hleft⟩
  · refine iff_of_true ⟨?_, fun other => ?_⟩ hnone
    · rw [hleft]
      exact fun s => rfl
    · rw [hleft]
  · refine iff_of_false (fun h => ?_) (not_not.mpr hwayOut)
    have hposition := h.position
    rw [hleft] at hposition
    exact not_samePosition_move hat hposition

/-- The king's own rooks cover its square, and all squares that it can move to. -/
theorem isCheckmated_keeps_iff_covered :
    CoveredBy amongRooks .black ⟨0, 0⟩ ∧ KeepsPosition amongRooks 1 .black := by
  refine ⟨amongRooks_covered .black,
    (isCheckmated_keeps_iff amongRooks_wellPlaced 1 .black).mpr ?_⟩
  rintro ⟨king, hking, -, s, hmem, hfree⟩
  obtain rfl : (⟨.king, .black, ⟨0, 0⟩, 0⟩ : Piece) = king :=
    Option.some.inj ((by decide : amongRooks.findKing .black = _).symm.trans hking)
  have hattacked : ∀ s ∈ amongRooks.canMoveTo ⟨.king, .black, ⟨0, 0⟩, 0⟩,
      (amongRooks.move ⟨.king, .black, ⟨0, 0⟩, 0⟩ s).isAttacked .black s = true := by
    decide
  have hat := (findKing_spec amongRooks_wellPlaced hking).1
  have hon : s.onBoard = true := ((mem_canMoveTo (by decide)).mp hmem).1
  have hmoved : WellPlaced (amongRooks.move ⟨.king, .black, ⟨0, 0⟩, 0⟩ s) :=
    amongRooks_wellPlaced.move (amongRooks_wellPlaced.parent_eq hat) hon
  exact hfree ((isAttacked_iff hmoved hon).mp (hattacked s hmem))

/-- A king and a rook of its color on one row. -/
def rookBeside : Board := loneKing.set .rook .black ⟨0, 7⟩

/-- The king has moved. -/
theorem rookBeside_moved : WellPlaced rookBeside ∧ ¬KeepsPosition rookBeside 1 .black := by
  refine ⟨loneKing_wellPlaced.set .rook .black (by decide), fun h => ?_⟩
  have hsame := h.position ⟨0, 0⟩
  have hdiffers : ((rookBeside.isCheckmated 1 .black).2.pieceAt ⟨0, 0⟩).map
      (fun piece => (piece.type, piece.color, piece.square)) = none := by decide
  exact nomatch hdiffers.symm.trans hsame

end Attacks

end Algiz.ProbChess
