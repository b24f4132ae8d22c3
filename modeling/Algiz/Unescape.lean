/-
  `unescape` and `escapeURL`: percent escapes, as paths and parameters are written.

  `percent` says what the escapes stand for. `unescape` reads a string that way, and no byte
  behind its end, unless the string has fewer than three bytes and holds a `%`: `size - 3` wraps
  around there, and no `%` counts as too close to the end (`unescape_safe_iff`). What `escapeURL`
  writes is read back (`unescape_escapeURL`).
-/
import Algiz.Lib.Escape
import Algiz.Util

namespace Algiz

open Lib

/-- Percent escapes, with `+` for a space or for itself. -/
def percent (plusToSpace : Bool) : Escape UInt8 where
  mark := 37
  plain c := if plusToSpace && c == 43 then 32 else c
  pair a b :=
    match hexDigit a, hexDigit b with
    | some next, some after => some (next * 16 + after)
    | _, _ => none

/-! ## Reads -/

/-- The loop of `unescape`, with the indices at which it reads the view. -/
def unescapeReading (ind : Indeterminate) (plusToSpace : Bool) (path : Bytes) :
    Nat → Nat → Bytes × List Nat
  | 0, _ => ([], [])
  | fuel + 1, i =>
    match path[i]? with
    | none => ([], [])
    | some ch =>
      if plusToSpace && ch == 43 then
        let (out, reads) := unescapeReading ind plusToSpace path fuel (i + 1)
        (32 :: out, i :: reads)
      else if ch != 37 || (3 ≤ path.length && path.length - 3 < i) then
        let (out, reads) := unescapeReading ind plusToSpace path fuel (i + 1)
        (ch :: out, i :: reads)
      else match hexDigit (peek ind path (i + 1)), hexDigit (peek ind path (i + 2)) with
        | some next, some after =>
          let (out, reads) := unescapeReading ind plusToSpace path fuel (i + 3)
          ((next * 16 + after) :: out, i :: (i + 1) :: (i + 2) :: reads)
        | _, _ =>
          let (out, reads) := unescapeReading ind plusToSpace path fuel (i + 1)
          (ch :: out, i :: (i + 1) :: (i + 2) :: reads)

/-- It is the loop of `unescape`. -/
theorem unescapeReading_fst (ind : Indeterminate) (plusToSpace : Bool) (path : Bytes)
    (fuel i : Nat) :
    (unescapeReading ind plusToSpace path fuel i).1 = unescapeFrom ind plusToSpace path fuel i := by
  induction fuel generalizing i with
  | zero => rfl
  | succ fuel ih =>
    cases hch : path[i]? with
    | none => rw [unescapeReading, unescapeFrom, hch]
    | some ch =>
      rw [unescapeReading, unescapeFrom, hch]
      dsimp only
      split_ifs with hplus hcopy
      · exact congrArg (32 :: ·) (ih (i + 1))
      · exact congrArg (ch :: ·) (ih (i + 1))
      · cases hexDigit (peek ind path (i + 1)) with
        | none => exact congrArg (ch :: ·) (ih (i + 1))
        | some next =>
          cases hexDigit (peek ind path (i + 2)) with
          | none => exact congrArg (ch :: ·) (ih (i + 1))
          | some after => exact congrArg ((next * 16 + after) :: ·) (ih (i + 3))

/-- The indices at which `unescape` reads the view. -/
def unescapeReads (ind : Indeterminate) (path : Bytes) (plusToSpace : Bool) : List Nat :=
  if !path.contains 37 && !(plusToSpace && path.contains 43) then []
  else (unescapeReading ind plusToSpace path path.length 0).2

/-- What the loop makes of one byte: a plain one, a `%` near the end, an escape, or a `%` that
    nothing follows which can be read. -/
theorem unescapeReading_cases (ind : Indeterminate) (plusToSpace : Bool) {path : Bytes}
    (fuel : Nat) {i : Nat} {ch : UInt8} (hch : path[i]? = some ch) :
    let next := unescapeReading ind plusToSpace path fuel (i + 1)
    let behind := unescapeReading ind plusToSpace path fuel (i + 3)
    let pair := (percent plusToSpace).pair (peek ind path (i + 1)) (peek ind path (i + 2))
    let now := unescapeReading ind plusToSpace path (fuel + 1) i
    (ch ≠ 37 ∧ now = ((percent plusToSpace).plain ch :: next.1, i :: next.2)) ∨
    (ch = 37 ∧ (3 ≤ path.length ∧ path.length - 3 < i) ∧ now = (37 :: next.1, i :: next.2)) ∨
    (ch = 37 ∧ ¬ (3 ≤ path.length ∧ path.length - 3 < i) ∧ ∃ x, pair = some x ∧
      now = (x :: behind.1, i :: (i + 1) :: (i + 2) :: behind.2)) ∨
    (ch = 37 ∧ ¬ (3 ≤ path.length ∧ path.length - 3 < i) ∧ pair = none ∧
      now = (37 :: next.1, i :: (i + 1) :: (i + 2) :: next.2)) := by
  intro next behind pair now
  have hnow : now = unescapeReading ind plusToSpace path (fuel + 1) i := rfl
  rw [unescapeReading, hch] at hnow
  dsimp only at hnow
  by_cases hplus : (plusToSpace && ch == 43) = true
  · have hne : ch ≠ 37 := by
      rintro rfl
      simp at hplus
    have hplain : (percent plusToSpace).plain ch = 32 := if_pos hplus
    rw [if_pos hplus] at hnow
    exact Or.inl ⟨hne, by rw [hplain]; exact hnow⟩
  · rw [if_neg hplus] at hnow
    by_cases hmark : ch = 37
    · have hnot : (ch != 37) = false := by rw [hmark]; rfl
      simp only [hnot, Bool.false_or, Bool.and_eq_true, decide_eq_true_eq] at hnow
      refine Or.inr ?_
      by_cases hlast : 3 ≤ path.length ∧ path.length - 3 < i
      · rw [if_pos hlast, hmark] at hnow
        exact Or.inl ⟨hmark, hlast, hnow⟩
      · rw [if_neg hlast, hmark] at hnow
        refine Or.inr ?_
        have hpair : pair = match hexDigit (peek ind path (i + 1)),
            hexDigit (peek ind path (i + 2)) with
          | some next, some after => some (next * 16 + after)
          | _, _ => none := rfl
        cases hfirst : hexDigit (peek ind path (i + 1)) with
        | none =>
          rw [hfirst] at hnow hpair
          exact Or.inr ⟨hmark, hlast, hpair, hnow⟩
        | some first =>
          cases hsecond : hexDigit (peek ind path (i + 2)) with
          | none =>
            rw [hfirst, hsecond] at hnow hpair
            exact Or.inr ⟨hmark, hlast, hpair, hnow⟩
          | some second =>
            rw [hfirst, hsecond] at hnow hpair
            exact Or.inl ⟨hmark, hlast, _, hpair, hnow⟩
    · have hnot : (ch != 37) = true := bne_iff_ne.mpr hmark
      have hplain : (percent plusToSpace).plain ch = ch := if_neg hplus
      rw [hnot, Bool.true_or, if_pos rfl] at hnow
      exact Or.inl ⟨hmark, by rw [hplain]; exact hnow⟩

/-- The byte at an index of the view. -/
theorem peek_eq (ind : Indeterminate) {path : Bytes} {i : Nat} (h : i < path.length) :
    peek ind path i = path[i] := by
  unfold peek
  rw [List.getElem?_eq_getElem h]

/-- A string of at least three bytes, or without `%`, is read as escapes and only within. -/
theorem unescapeReading_eq (ind : Indeterminate) (plusToSpace : Bool) {path : Bytes}
    (h : 3 ≤ path.length ∨ 37 ∉ path) (fuel i : Nat) (hfuel : path.length ≤ fuel + i) :
    (unescapeReading ind plusToSpace path fuel i).1 = (percent plusToSpace).decode (path.drop i) ∧
      ∀ j ∈ (unescapeReading ind plusToSpace path fuel i).2, j < path.length := by
  induction fuel generalizing i with
  | zero =>
    rw [List.drop_of_length_le (by omega)]
    exact ⟨rfl, fun j hj => absurd hj List.not_mem_nil⟩
  | succ fuel ih =>
    by_cases hi : i < path.length
    · obtain ⟨hnext, hnextReads⟩ := ih (i + 1) (by omega)
      obtain ⟨hbehind, hbehindReads⟩ := ih (i + 3) (by omega)
      have hdrop : path.drop i = path[i] :: path.drop (i + 1) := List.drop_eq_getElem_cons hi
      -- where a `%` is not copied at once, two bytes follow it
      have hroom : path[i] = 37 → ¬ (3 ≤ path.length ∧ path.length - 3 < i) →
          i + 2 < path.length := by
        intro hmark hlast
        have hlong : 3 ≤ path.length :=
          h.resolve_right fun hnot => hnot (hmark ▸ List.getElem_mem hi)
        omega
      rw [hdrop]
      obtain ⟨hplain, hnow⟩ | ⟨hmark, ⟨-, hlast⟩, hnow⟩ | ⟨hmark, hlast, x, hpair, hnow⟩ |
        ⟨hmark, hlast, hpair, hnow⟩ :=
        unescapeReading_cases ind plusToSpace fuel (List.getElem?_eq_getElem hi)
      · rw [hnow, Escape.decode_plain _ hplain, hnext]
        exact ⟨rfl, List.forall_mem_cons.mpr ⟨hi, hnextReads⟩⟩
      · have hshort : (path.drop (i + 1)).length < 2 := by
          rw [List.length_drop]
          omega
        rw [hnow, hmark, hnext]
        exact ⟨(Escape.decode_short (percent plusToSpace) hshort).symm,
          List.forall_mem_cons.mpr ⟨hi, hnextReads⟩⟩
      · have hroom := hroom hmark hlast
        rw [peek_eq ind (by omega), peek_eq ind hroom] at hpair
        rw [hnow, hmark, List.drop_eq_getElem_cons (by omega), List.drop_eq_getElem_cons hroom,
          hbehind]
        exact ⟨(Escape.decode_pair (percent plusToSpace) hpair _).symm,
          List.forall_mem_cons.mpr ⟨hi, List.forall_mem_cons.mpr ⟨by omega,
            List.forall_mem_cons.mpr ⟨hroom, hbehindReads⟩⟩⟩⟩
      · have hroom := hroom hmark hlast
        rw [peek_eq ind (by omega), peek_eq ind hroom] at hpair
        rw [hnow, hmark, hnext, List.drop_eq_getElem_cons (show i + 1 < path.length by omega),
          List.drop_eq_getElem_cons hroom]
        exact ⟨(Escape.decode_no_pair (percent plusToSpace) hpair _).symm,
          List.forall_mem_cons.mpr ⟨hi, List.forall_mem_cons.mpr ⟨by omega,
            List.forall_mem_cons.mpr ⟨hroom, hnextReads⟩⟩⟩⟩
    · have hnone : path[i]? = none := List.getElem?_eq_none_iff.mpr (by omega)
      rw [unescapeReading, hnone, List.drop_of_length_le (by omega)]
      exact ⟨rfl, fun j hj => absurd hj List.not_mem_nil⟩

/-- Nothing is escaped in a string that `unescape` returns as it is. -/
theorem decode_self {path : Bytes} {plusToSpace : Bool}
    (h : (!path.contains 37 && !(plusToSpace && path.contains 43)) = true) :
    (percent plusToSpace).decode path = path := by
  simp only [Bool.and_eq_true, Bool.not_eq_true', Bool.and_eq_false_iff,
    List.contains_eq_mem, decide_eq_false_iff_not] at h
  have hplain : ∀ c ∈ path, (percent plusToSpace).plain c = c := by
    intro c hc
    refine if_neg fun hplus => ?_
    rw [Bool.and_eq_true, beq_iff_eq] at hplus
    rcases h.2 with hfalse | hnot
    · rw [hplus.1] at hfalse
      exact Bool.noConfusion hfalse
    · exact hnot (hplus.2 ▸ hc)
  rw [Escape.decode_of_not_mem _ h.1, List.map_congr_left hplain, List.map_id']

/-- `unescape` of a string of at least three bytes, or without `%`. -/
theorem unescape_eq_decode (ind : Indeterminate) {path : Bytes} (plusToSpace : Bool)
    (h : 3 ≤ path.length ∨ 37 ∉ path) :
    unescape ind path plusToSpace = (percent plusToSpace).decode path := by
  unfold unescape
  split_ifs with hself
  · exact (decode_self hself).symm
  · rw [← unescapeReading_fst, (unescapeReading_eq ind plusToSpace h path.length 0 le_rfl).1,
      List.drop_zero]

/-- With fewer than three bytes the loop reads behind the end from every `%` on. -/
theorem unescapeReading_beyond (ind : Indeterminate) (plusToSpace : Bool) {path : Bytes}
    (hshort : path.length < 3) {fuel i : Nat} (hfuel : path.length ≤ fuel + i)
    (hmark : 37 ∈ path.drop i) :
    ∃ j ∈ (unescapeReading ind plusToSpace path fuel i).2, path.length ≤ j := by
  have hi : i < path.length := by
    have := List.length_pos_of_mem hmark
    rw [List.length_drop] at this
    omega
  induction fuel generalizing i with
  | zero => omega
  | succ fuel ih =>
    have hdrop : path.drop i = path[i] :: path.drop (i + 1) := List.drop_eq_getElem_cons hi
    obtain ⟨hplain, hnow⟩ | ⟨-, ⟨hlong, -⟩, -⟩ | ⟨-, -, x, -, hnow⟩ | ⟨-, -, -, hnow⟩ :=
      unescapeReading_cases ind plusToSpace fuel (List.getElem?_eq_getElem hi)
    · rw [hdrop, List.mem_cons, or_iff_right (Ne.symm hplain)] at hmark
      have hnext : i + 1 < path.length := by
        have := List.length_pos_of_mem hmark
        rw [List.length_drop] at this
        omega
      obtain ⟨j, hj, hbeyond⟩ := ih (by omega) hmark hnext
      rw [hnow]
      exact ⟨j, List.mem_cons_of_mem i hj, hbeyond⟩
    · omega
    · rw [hnow]
      exact ⟨i + 2, by simp, by omega⟩
    · rw [hnow]
      exact ⟨i + 2, by simp, by omega⟩

/-- `unescape` reads within the string, and reads it as escapes, exactly when it has at least
    three bytes or no `%`. -/
theorem unescape_safe_iff (ind : Indeterminate) (path : Bytes) (plusToSpace : Bool) :
    ((∀ i ∈ unescapeReads ind path plusToSpace, i < path.length) ∧
      unescape ind path plusToSpace = (percent plusToSpace).decode path) ↔
        ¬ (path.length < 3 ∧ 37 ∈ path) := by
  constructor
  · rintro ⟨hreads, -⟩ ⟨hshort, hmark⟩
    have hread : unescapeReads ind path plusToSpace =
        (unescapeReading ind plusToSpace path path.length 0).2 := by
      have hcontains : path.contains 37 = true := List.contains_iff_mem.mpr hmark
      unfold unescapeReads
      rw [hcontains]
      rfl
    obtain ⟨j, hj, hbeyond⟩ := unescapeReading_beyond ind plusToSpace hshort
      (show path.length ≤ path.length + 0 by omega) (by rwa [List.drop_zero])
    have := hreads j (hread ▸ hj)
    omega
  · intro h
    have hlong : 3 ≤ path.length ∨ 37 ∉ path := by
      rw [not_and_or] at h
      exact h.imp_left Nat.le_of_not_lt
    refine ⟨?_, unescape_eq_decode ind plusToSpace hlong⟩
    unfold unescapeReads
    split_ifs
    · exact fun i hi => absurd hi List.not_mem_nil
    · exact (unescapeReading_eq ind plusToSpace hlong path.length 0 le_rfl).2

/-- A lone `%` is read with the two bytes behind the end, and lost if these are hex digits. -/
theorem unescape_percent :
    (¬ ∀ i ∈ unescapeReads {} [37] true, i < ([37] : Bytes).length) ∧
      unescape { beyond := fun _ _ => 52 } [37] true = [68] := by
  decide

/-! ## Escaping -/

/-- A digit of `charHex`. -/
def nibbleChar (nibble : UInt8) : UInt8 := nibble + if nibble < 10 then 48 else 97 - 10

/-- `charHex` -/
def charHex (ch : UInt8) : Bytes := [nibbleChar (ch / 16), nibbleChar (ch % 16)]

/-- What `escapeURL` writes for a byte. A `char` is signed: from 128 on it is less than `'0'`. -/
def escapeByte (ch : UInt8) : Bytes :=
  if ch == 32 then [43]
  else if ch == 46 || ch == 95 then [ch]
  else if (128 ≤ ch || ch < 48) || (57 < ch && ch < 65) || (90 < ch && ch < 97) || 122 < ch then
    37 :: charHex ch
  else [ch]

/-- `escapeURL` -/
def escapeURL (view : Bytes) : Bytes := view.flatMap escapeByte

/-- A property of every byte, checked number by number. -/
theorem forall_byte {P : UInt8 → Prop} (h : ∀ n < 256, P (UInt8.ofNat n)) (b : UInt8) : P b := by
  have hb := h b.toNat b.toNat_lt
  rwa [UInt8.ofNat_toNat] at hb

/-- `charHex` writes two digits that are read as the byte. -/
theorem pair_charHex (ch : UInt8) :
    (percent true).pair (nibbleChar (ch / 16)) (nibbleChar (ch % 16)) = some ch :=
  forall_byte (P := fun ch => (percent true).pair (nibbleChar (ch / 16)) (nibbleChar (ch % 16)) =
    some ch) (by decide +kernel) ch

/-- What `escapeURL` writes for a byte stands for the byte. -/
theorem writes_escapeByte : (percent true).Writes escapeByte := by
  intro ch
  unfold escapeByte
  split_ifs with hspace hkept hescaped
  · rw [beq_iff_eq] at hspace
    exact Or.inl ⟨43, rfl, by decide, hspace.symm⟩
  · rw [Bool.or_eq_true, beq_iff_eq, beq_iff_eq] at hkept
    refine Or.inl ⟨ch, rfl, ?_⟩
    rcases hkept with rfl | rfl
    · decide
    · decide
  · exact Or.inr ⟨_, _, rfl, pair_charHex ch⟩
  · have hlow : ¬ ch < 48 := by
      intro h
      simp [h] at hescaped
    refine Or.inl ⟨ch, rfl, ?_, if_neg ?_⟩
    · rintro rfl
      exact hlow (by decide)
    · intro hplus
      rw [Bool.true_and, beq_iff_eq] at hplus
      subst hplus
      exact hlow (by decide)

/-- An escape takes three bytes. -/
theorem length_of_mem_escapeByte {ch : UInt8} (h : 37 ∈ escapeByte ch) :
    (escapeByte ch).length = 3 := by
  unfold escapeByte at h ⊢
  split at h
  · exact absurd h (by decide)
  · split at h
    · rename_i hdot
      obtain rfl := List.mem_singleton.mp h
      exact absurd hdot (by decide)
    · split at h
      · rename_i hspace hdot hescaped
        rw [if_neg hspace, if_neg hdot, if_pos hescaped]
        rfl
      · rename_i hplain
        obtain rfl := List.mem_singleton.mp h
        exact absurd (by decide) hplain

theorem not_mem_escapeByte (ch : UInt8) : 38 ∉ escapeByte ch ∧ 61 ∉ escapeByte ch :=
  forall_byte (P := fun ch => 38 ∉ escapeByte ch ∧ 61 ∉ escapeByte ch) (by decide +kernel) ch

/-- Neither `&` nor `=` is written. -/
theorem not_mem_escapeURL (view : Bytes) : 38 ∉ escapeURL view ∧ 61 ∉ escapeURL view := by
  constructor
  · intro hin
    obtain ⟨ch, -, hch⟩ := List.mem_flatMap.mp hin
    exact (not_mem_escapeByte ch).1 hch
  · intro hin
    obtain ⟨ch, -, hch⟩ := List.mem_flatMap.mp hin
    exact (not_mem_escapeByte ch).2 hch

/-- `unescape` undoes `escapeURL`. -/
theorem unescape_escapeURL (ind : Indeterminate) (view : Bytes) :
    unescape ind (escapeURL view) true = view := by
  have hlong : 3 ≤ (escapeURL view).length ∨ 37 ∉ escapeURL view := by
    by_cases hmark : 37 ∈ escapeURL view
    · obtain ⟨ch, hch, hin⟩ := List.mem_flatMap.mp hmark
      have hsub : (escapeByte ch).Sublist (escapeURL view) :=
        List.sublist_flatten_of_mem (List.mem_map_of_mem hch)
      exact Or.inl (length_of_mem_escapeByte hin ▸ hsub.length_le)
    · exact Or.inr hmark
  have hdecode := Escape.decode_encode (percent true) writes_escapeByte view []
  rw [List.append_nil, Escape.decode_nil, List.append_nil] at hdecode
  rw [unescape_eq_decode ind true hlong]
  exact hdecode

end Algiz
