/-
  Which of its moves a computer player prefers.

  `checkSuperior` goes by mate, by check, by the own king where that counts, and by whether there is
  a capture. Where two moves are the same in these, it goes by what is captured and, if that is not
  more, by where the move ends: a move may be superior to another for the one and the other to it
  for the other. So nothing is superior to the move that is chosen if and only if some move is
  greatest in both (`chooseMove_best_iff`).
-/
import Algiz.ProbChess.Players

namespace Algiz.ProbChess

open Lib Board

/-! ## What is compared -/

/-- Mate, check, and, where it counts, no check to the own king; then, a capture. -/
def LabeledMove.key (spareSelf : Bool) (labeled : LabeledMove) : Bool ×ₗ Bool ×ₗ Bool ×ₗ Bool :=
  toLex (labeled.isCheckmated, toLex (labeled.isInCheck,
    toLex (!spareSelf || !labeled.isSelfInCheck, labeled.captured.isSome)))

/-- What is captured. -/
def LabeledMove.value (labeled : LabeledMove) : Int :=
  (labeled.captured.map fun piece => piece.type.value).getD 0

/-- Where the move ends: how deep, and how far from the center; then, the code. -/
def LabeledMove.place (currentTurn : Color) (labeled : LabeledMove) : Int ×ₗ Int ×ₗ Int :=
  let to' := labeled.move.toSquare
  toLex (if currentTurn = .black then to'.row else -to'.row,
    toLex (-centerDistance to'.column, moveCode labeled.move))

section Criteria

variable {spareSelf : Bool} {currentTurn : Color} {check alternative : LabeledMove}

theorem superiorSquare_iff : superiorSquare currentTurn check.move alternative.move = true ↔
    check.place currentTurn < alternative.place currentTurn := by
  unfold superiorSquare LabeledMove.place
  simp only [Prod.Lex.toLex_lt_toLex]
  generalize check.move.toSquare.row = row
  generalize alternative.move.toSquare.row = row'
  generalize hdistance : centerDistance check.move.toSquare.column = distance
  generalize hdistance' : centerDistance alternative.move.toSquare.column = distance'
  by_cases hrow : row = row'
  · rw [if_neg (not_not.mpr hrow), hrow]
    by_cases hne : distance = distance'
    · rw [if_neg fun h => h.2 hne, hne, decide_eq_true_eq]
      simp
    · -- squares at different distances are in different columns
      have hcolumn : check.move.toSquare.column ≠ alternative.move.toSquare.column := by
        intro heq
        rw [heq] at hdistance
        exact hne (hdistance.symm.trans hdistance')
      rw [if_pos ⟨hcolumn, hne⟩, decide_eq_true_eq]
      have hne' : -distance ≠ -distance' := fun heq => hne (Int.neg_inj.mp heq)
      simp [hne']
  · rw [if_pos hrow]
    cases currentTurn with
    | black =>
      rw [if_pos rfl, if_pos rfl, if_pos rfl, decide_eq_true_eq]
      simp only [hrow, false_and, or_false]
      omega
    | white =>
      rw [if_neg (by decide), if_neg (by decide), if_neg (by decide), decide_eq_true_eq]
      have hrow' : -row ≠ -row' := fun heq => hrow (Int.neg_inj.mp heq)
      simp only [hrow', false_and, or_false]
      omega

/-- Of two moves that capture, or do not, the second is superior if it captures more or ends in a
    better place. -/
theorem checkSuperiorWith_iff :
    checkSuperiorWith spareSelf currentTurn check alternative = true ↔
      Surpassed (LabeledMove.key spareSelf) LabeledMove.value (LabeledMove.place currentTurn)
        check alternative := by
  unfold checkSuperiorWith LabeledMove.key
  rw [surpassed_flag, surpassed_flag, surpassed_flag]
  by_cases hmate : check.isCheckmated = alternative.isCheckmated
  case neg => rw [if_pos hmate, if_pos hmate]
  rw [if_neg (not_not.mpr hmate), if_neg (not_not.mpr hmate)]
  by_cases hcheck : check.isInCheck = alternative.isInCheck
  case neg => rw [if_pos hcheck, if_pos hcheck]
  rw [if_neg (not_not.mpr hcheck), if_neg (not_not.mpr hcheck)]
  by_cases hself : spareSelf = true ∧ check.isSelfInCheck ≠ alternative.isSelfInCheck
  · have hflags : (!spareSelf || !check.isSelfInCheck) ≠
        (!spareSelf || !alternative.isSelfInCheck) := by
      rw [hself.1]
      simpa using hself.2
    rw [if_pos hself, if_pos hflags, hself.1]
    simp
  · have hflags : (!spareSelf || !check.isSelfInCheck) =
        (!spareSelf || !alternative.isSelfInCheck) := by
      cases spareSelf with
      | false => rfl
      | true =>
        have hsame := not_not.mp fun hne => hself ⟨rfl, hne⟩
        rw [hsame]
    rw [if_neg hself, if_neg (not_not.mpr hflags)]
    unfold Surpassed LabeledMove.value
    cases hmine : check.captured with
    | none =>
      cases hother : alternative.captured with
      | none => simp [hmine, hother, superiorSquare_iff]
      | some other => simp [hmine, hother]
    | some mine =>
      cases hother : alternative.captured with
      | none => simp [hmine, hother]
      | some other =>
        by_cases hvalue : mine.type.value < other.type.value
        · simp [hmine, hother, hvalue]
        · simp [hmine, hother, hvalue, superiorSquare_iff]

end Criteria

/-! ## What is chosen -/

/-- The labeled moves of `CCCPPlayer::chooseMove`. -/
def labeledMoves (b : Board) (currentTurn : Color) (columns : List Int) : List LabeledMove :=
  (tryMoves currentTurn (b.copy (b.self + 1))
    ((b.allMoves currentTurn).filter fun move => columns.contains move.fromSquare.column) b).1

/-- What is chosen of some labeled moves. -/
def choice (superior : LabeledMove → LabeledMove → Bool) : List LabeledMove → Option LabeledMove
  | [] => none
  | first :: rest => some (best superior first rest)

/-- Two moves are the same in all that is compared. -/
def LabeledMove.Tied (spareSelf : Bool) (currentTurn : Color) (a b : LabeledMove) : Prop :=
  a.key spareSelf = b.key spareSelf ∧ a.value = b.value ∧ a.place currentTurn = b.place currentTurn

/-- A move is chosen to which none is superior, and in whatever order the moves are gone over, the
    choice is this one or is tied with it. -/
structure ChoosesBest (superior : Color → LabeledMove → LabeledMove → Bool) (spareSelf : Bool)
    (b : Board) (currentTurn : Color) (columns : List Int) (chosen : LabeledMove) : Prop where
  chooses : (CCCPPlayer.chooseMove superior b currentTurn columns).1 = .ok chosen.move
  chosen_eq : choice (superior currentTurn) (labeledMoves b currentTurn columns) = some chosen
  unsurpassed : ∀ other ∈ labeledMoves b currentTurn columns,
    superior currentTurn chosen other = false
  anyOrder : ∀ labeled other, labeled.Perm (labeledMoves b currentTurn columns) →
    choice (superior currentTurn) labeled = some other → other.Tied spareSelf currentTurn chosen

/-- Some move is greatest in mate, check and capture, and of those that are the same in these the
    greatest in what it captures and in where it ends. -/
def HasPeak (spareSelf : Bool) (b : Board) (currentTurn : Color) (columns : List Int) : Prop :=
  ∃ c ∈ labeledMoves b currentTurn columns,
    IsPeak (LabeledMove.key spareSelf) LabeledMove.value (LabeledMove.place currentTurn)
      (labeledMoves b currentTurn columns) c

section Choices

variable {b : Board} {currentTurn : Color} {columns : List Int}

theorem chooseMove_of_choice {superior : Color → LabeledMove → LabeledMove → Bool}
    {chosen : LabeledMove}
    (h : choice (superior currentTurn) (labeledMoves b currentTurn columns) = some chosen) :
    (CCCPPlayer.chooseMove superior b currentTurn columns).1 = .ok chosen.move := by
  unfold labeledMoves at h
  unfold CCCPPlayer.chooseMove
  dsimp only
  split
  · rename_i left htry
    rw [htry] at h
    exact nomatch h
  · rename_i first rest left htry
    rw [htry] at h
    rw [← Option.some.inj h]

/-- A choice to which no other move is superior is made where there is a peak, and nowhere else. -/
theorem choosesBest_iff (spareSelf : Bool) :
    (∃ chosen, ChoosesBest (checkSuperiorWith spareSelf) spareSelf b currentTurn columns chosen) ↔
      HasPeak spareSelf b currentTurn columns := by
  have hsuperior : ∀ check alternative,
      checkSuperiorWith spareSelf currentTurn check alternative = true ↔
        Surpassed (LabeledMove.key spareSelf) LabeledMove.value (LabeledMove.place currentTurn)
          check alternative := fun _ _ => checkSuperiorWith_iff
  unfold HasPeak
  cases hlabeled : labeledMoves b currentTurn columns with
  | nil =>
    refine iff_of_false ?_ ?_
    · rintro ⟨chosen, hchosen⟩
      have hnone := hchosen.chosen_eq
      rw [hlabeled] at hnone
      exact nomatch hnone
    · rintro ⟨c, hmem, -⟩
      exact absurd hmem List.not_mem_nil
  | cons first rest =>
    rw [← scan_best_iff hsuperior]
    have hchoice : choice (checkSuperiorWith spareSelf currentTurn)
        (labeledMoves b currentTurn columns) =
          some (scan (checkSuperiorWith spareSelf currentTurn) first rest) := by
      rw [hlabeled]
      rfl
    constructor
    · rintro ⟨chosen, hchosen⟩
      have hunsurpassed := hchosen.unsurpassed
      rw [hlabeled] at hunsurpassed
      rw [← Option.some.inj (hchosen.chosen_eq.symm.trans hchoice)]
      exact hunsurpassed
    · intro hbest
      refine ⟨_, chooseMove_of_choice hchoice, hchoice, ?_, ?_⟩
      · rw [hlabeled]
        exact hbest
      · intro labeled other hperm hother
        rw [hlabeled] at hperm
        cases labeled with
        | nil => exact nomatch hother
        | cons first' rest' =>
          rw [← Option.some.inj hother]
          exact scan_perm hsuperior hperm ((scan_best_iff hsuperior).mp hbest)

/-- To what `CCCPPlayer` and `CCCP2Player` choose no move is superior, if and only if there is a
    move that is greatest both in what it captures and in where it ends. -/
theorem chooseMove_best_iff (b : Board) (currentTurn : Color) (columns : List Int) :
    ((∃ chosen, ChoosesBest CCCPPlayer.checkSuperior false b currentTurn columns chosen) ↔
        HasPeak false b currentTurn columns) ∧
      ((∃ chosen, ChoosesBest CCCP2Player.checkSuperior true b currentTurn columns chosen) ↔
        HasPeak true b currentTurn columns) :=
  ⟨choosesBest_iff false, choosesBest_iff true⟩

theorem not_choosesBest {superior : Color → LabeledMove → LabeledMove → Bool} {spareSelf : Bool}
    (h : (choice (superior currentTurn) (labeledMoves b currentTurn columns)).any (fun chosen =>
      (labeledMoves b currentTurn columns).any (superior currentTurn chosen)) = true) :
    ¬∃ chosen, ChoosesBest superior spareSelf b currentTurn columns chosen := by
  rintro ⟨chosen, hchosen⟩
  rw [hchosen.chosen_eq, Option.any_some, List.any_eq_true] at h
  obtain ⟨other, hmem, hsuperior⟩ := h
  rw [hchosen.unsurpassed other hmem] at hsuperior
  exact Bool.noConfusion hsuperior

/-- A rook that can capture a queen beside it or a pawn ahead of it. -/
def forkBoard : Board :=
  let b : Board := { self := 0, pieces := fun _ => none }
  let b := (b.set .king .black ⟨0, 2⟩).set .king .white ⟨7, 7⟩
  ((b.set .rook .white ⟨4, 0⟩).set .queen .black ⟨4, 1⟩).set .pawn .black ⟨3, 0⟩

/-- The queen is captured, to which capturing the pawn is superior. -/
theorem forkBoard_surpassed :
    (¬∃ chosen, ChoosesBest CCCPPlayer.checkSuperior false forkBoard .white [0] chosen) ∧
      ¬∃ chosen, ChoosesBest CCCP2Player.checkSuperior true forkBoard .white [0] chosen :=
  ⟨not_choosesBest (by decide), not_choosesBest (by decide)⟩

end Choices

end Algiz.ProbChess
