/-
  `split` and `join`.

  `splitTurn` is the turn of the `while` loop in `split`, with indices that wrap around at 2^64
  and the clamped `substr`. The loop ends, and what it leaves are the pieces of `Algiz.Util`
  (`splits_iff`). Those are the pieces of the string cut at the delimiter (`cut_pieces`), so that
  joining them gives the string back.
-/
import Mathlib.Algebra.Group.Nat.Defs
import Algiz.Lib.Cut
import Algiz.Lib.Loop
import Algiz.Util

namespace Algiz

open Lib

/-! ## Where a string is found -/

theorem findString_eq_some_iff {needle view : Bytes} {i : Nat} (hne : needle ≠ []) :
    findString needle view = some i ↔ StandsFirst needle view i := by
  induction view generalizing i with
  | nil =>
    have hempty : needle.isEmpty = false := List.isEmpty_eq_false_iff.mpr hne
    rw [findString, hempty, if_neg Bool.false_ne_true]
    refine iff_of_false (fun h => by cases h) fun h => hne ?_
    have hstart := h.1
    rw [List.drop_nil] at hstart
    exact List.prefix_nil.mp hstart
  | cons b view ih =>
    rw [findString]
    by_cases hstart : needle <+: b :: view
    · rw [if_pos (List.isPrefixOf_iff_prefix.mpr hstart), Option.some_inj]
      have hzero := standsFirst_zero_iff.mpr hstart
      refine ⟨fun h => h ▸ hzero, fun h => hzero.unique h⟩
    · rw [if_neg (fun h => hstart (List.isPrefixOf_iff_prefix.mp h)), Option.map_eq_some_iff]
      cases i with
      | zero =>
        rw [standsFirst_zero_iff]
        refine iff_of_false ?_ hstart
        rintro ⟨j, -, hj⟩
        exact absurd hj (Nat.succ_ne_zero j)
      | succ i =>
        rw [standsFirst_cons_succ, ← ih]
        constructor
        · rintro ⟨j, hj, hji⟩
          obtain rfl := Nat.succ.inj hji
          exact ⟨hstart, hj⟩
        · rintro ⟨-, hi⟩
          exact ⟨i, hi, rfl⟩

theorem findString_eq_none_iff {needle view : Bytes} (hne : needle ≠ []) :
    findString needle view = none ↔ ¬ needle <:+: view := by
  induction view with
  | nil =>
    have hempty : needle.isEmpty = false := List.isEmpty_eq_false_iff.mpr hne
    rw [findString, hempty, if_neg Bool.false_ne_true]
    exact iff_of_true rfl fun h => hne (List.infix_nil.mp h)
  | cons b view ih =>
    rw [findString, List.infix_cons_iff, not_or, ← ih]
    by_cases hstart : needle <+: b :: view
    · rw [if_pos (List.isPrefixOf_iff_prefix.mpr hstart)]
      exact iff_of_false (fun h => by cases h) fun h => h.1 hstart
    · rw [if_neg (fun h => hstart (List.isPrefixOf_iff_prefix.mp h)), Option.map_eq_none_iff]
      exact (and_iff_right hstart).symm

/-- With fuel for every byte, the pieces are those between the delimiters. -/
theorem cut_pieces {delimiter : Bytes} (hne : delimiter ≠ []) {n : Nat} {str : Bytes}
    (hn : str.length ≤ n) : Cut delimiter str (pieces delimiter n str) := by
  induction n generalizing str with
  | zero =>
    obtain rfl := List.length_eq_zero_iff.mp (Nat.le_zero.mp hn)
    exact Cut.last fun h => hne (List.infix_nil.mp h)
  | succ n ih =>
    rw [pieces]
    cases hfind : findString delimiter str with
    | none => exact Cut.last ((findString_eq_none_iff hne).mp hfind)
    | some next =>
      have hfirst := (findString_eq_some_iff hne).mp hfind
      have hpos := List.length_pos_iff.mpr hne
      refine Cut.next hfirst (ih ?_)
      rw [List.length_drop]
      omega

/-! ## The loop -/

/-- `std::string_view::npos` -/
def npos : Nat := 2 ^ 64 - 1

/-- `a + b` of two `size_t`. -/
def addSize (a b : Nat) : Nat := (a + b) % 2 ^ 64

/-- `a - b` of two `size_t`. -/
def subSize (a b : Nat) : Nat := (a + 2 ^ 64 - b) % 2 ^ 64

/-- `str.find(needle, pos)` -/
def findFrom (str needle : Bytes) (pos : Nat) : Nat :=
  if str.length < pos then npos
  else match findString needle (str.drop pos) with
    | some i => pos + i
    | none => npos

/-- `str.substr(pos, count)` -/
def substr (str : Bytes) (pos count : Nat) : Except Exception Bytes :=
  if str.length < pos then .error .outOfRange
  else .ok ((str.drop pos).take count)

/-- `next` and `out`. -/
structure Splitting where
  next : Nat
  out : List Bytes

/-- A turn of `while (next != std::string::npos)`, or what is returned behind it. -/
def splitTurn (str delimiter : Bytes) (condense : Bool) (s : Splitting) :
    Splitting ⊕ Except Exception (List Bytes) :=
  if s.next ≠ npos then
    let last := s.next
    let next := findFrom str delimiter (addSize last delimiter.length)
    match substr str (addSize last delimiter.length)
        (subSize (subSize next last) delimiter.length) with
    | .error e => .inr (.error e)
    | .ok sub =>
      .inl { next, out := if !sub.isEmpty || !condense then s.out ++ [sub] else s.out }
  else .inr (.ok s.out)

/-- `split` ends, and returns or throws this. -/
def Splits (str delimiter : Bytes) (condense : Bool) (result : Except Exception (List Bytes)) :
    Prop :=
  if str.isEmpty then result = .ok []
  else
    let next := findFrom str delimiter 0
    if next = npos then result = .ok [str]
    else Loop (splitTurn str delimiter condense) ⟨next, [str.take next]⟩ result

theorem findFrom_eq_of_standsFirst {str needle : Bytes} (hne : needle ≠ []) {pos i : Nat}
    (hpos : pos ≤ str.length) (h : StandsFirst needle (str.drop pos) i) :
    findFrom str needle pos = pos + i := by
  unfold findFrom
  rw [if_neg (Nat.not_lt.mpr hpos), (findString_eq_some_iff hne).mpr h]

theorem findFrom_eq_npos {str needle : Bytes} (hne : needle ≠ []) {pos : Nat}
    (h : ¬ needle <:+: str.drop pos) : findFrom str needle pos = npos := by
  unfold findFrom
  split
  · rfl
  · rw [(findString_eq_none_iff hne).mpr h]

/-- The turn behind a delimiter that stands at `last`. -/
theorem splitTurn_of_ne {str delimiter : Bytes} (condense : Bool) {last next : Nat}
    (out : List Bytes) (hlast : last ≠ npos) (hroom : last + delimiter.length ≤ str.length)
    (hsize : str.length < npos) (hfind : findFrom str delimiter (last + delimiter.length) = next)
    (hnext : last + delimiter.length ≤ next ∧ next ≤ npos) :
    splitTurn str delimiter condense ⟨last, out⟩ =
      .inl ⟨next, out ++ [(str.drop (last + delimiter.length)).take
        (next - last - delimiter.length)].filter fun piece => !piece.isEmpty || !condense⟩ := by
  unfold npos at hsize hnext hlast
  have hadd : addSize last delimiter.length = last + delimiter.length := by
    unfold addSize
    omega
  have hsub : subSize (subSize next last) delimiter.length = next - last - delimiter.length := by
    unfold subSize
    omega
  unfold splitTurn
  rw [if_pos (show (⟨last, out⟩ : Splitting).next ≠ npos from hlast)]
  dsimp only
  rw [hadd, hfind, hsub, substr, if_neg (Nat.not_lt.mpr hroom)]
  dsimp only
  rw [List.filter_singleton]
  split
  · rename_i hkeep
    rw [hkeep]
    rfl
  · rename_i hkeep
    rw [Bool.eq_false_iff.mpr hkeep]
    simp

/-- The loop ends, and adds the pieces behind the delimiter at `last`. -/
theorem loop_splitTurn {str delimiter rest : Bytes} (condense : Bool) {ps : List Bytes}
    (hne : delimiter ≠ []) (hsize : str.length < npos) (hcut : Cut delimiter rest ps)
    {last : Nat} (hroom : last + delimiter.length ≤ str.length)
    (hrest : rest = str.drop (last + delimiter.length)) (out : List Bytes) :
    Loop (splitTurn str delimiter condense) ⟨last, out⟩
      (.ok (out ++ ps.filter fun piece => !piece.isEmpty || !condense)) := by
  have hpos := List.length_pos_iff.mpr hne
  induction hcut generalizing last out with
  | last hnone =>
    subst hrest
    have hturn := splitTurn_of_ne condense out (by omega) hroom hsize
      (findFrom_eq_npos hne hnone) ⟨by omega, Nat.le_refl npos⟩
    rw [List.take_of_length_le (by rw [List.length_drop]; omega)] at hturn
    refine Loop.again hturn (Loop.leave ?_)
    unfold splitTurn
    rw [if_neg (not_not.mpr rfl)]
  | @next _ i ps hfirst _ ih =>
    subst hrest
    have hlen := hfirst.add_length_le hne
    rw [List.length_drop] at hlen
    have hturn := splitTurn_of_ne condense out (by omega) hroom hsize
      (findFrom_eq_of_standsFirst hne hroom hfirst) ⟨by omega, by omega⟩
    have hcount : last + delimiter.length + i - last - delimiter.length = i := by omega
    rw [hcount] at hturn
    refine Loop.again hturn ?_
    have hdrop : (str.drop (last + delimiter.length)).drop (i + delimiter.length) =
        str.drop (last + delimiter.length + i + delimiter.length) := by
      rw [List.drop_drop, Nat.add_assoc (last + delimiter.length)]
    have hloop := ih (by omega) hdrop (out ++ [(str.drop (last + delimiter.length)).take i].filter
      fun piece => !piece.isEmpty || !condense)
    rwa [List.append_assoc, ← List.filter_append, List.singleton_append] at hloop

theorem split_eq_pieces {str delimiter : Bytes} (hstr : str ≠ []) :
    split str delimiter false = pieces delimiter str.length str := by
  have hempty : str.isEmpty = false := List.isEmpty_eq_false_iff.mpr hstr
  obtain ⟨first, rest, hpieces⟩ := List.exists_cons_of_ne_nil
    (pieces_ne_nil delimiter str.length str)
  unfold split
  rw [hempty, if_neg Bool.false_ne_true, hpieces]
  dsimp only
  have hall : ∀ piece ∈ rest, (!piece.isEmpty || !false) = true := fun piece _ => Bool.or_true _
  rw [List.filter_eq_self.mpr hall]

/-- The loop ends with the pieces that `split` is said to give. -/
theorem splits_iff {str delimiter : Bytes} (hne : delimiter ≠ []) (hsize : str.length < npos)
    (condense : Bool) (result : Except Exception (List Bytes)) :
    Splits str delimiter condense result ↔ result = .ok (split str delimiter condense) := by
  unfold Splits split
  split
  · rfl
  · rename_i hstr
    have hpos : 0 < str.length := List.length_pos_iff.mpr fun h => hstr (List.isEmpty_iff.mpr h)
    obtain ⟨n, hn⟩ := Nat.exists_eq_succ_of_ne_zero (Nat.ne_of_gt hpos)
    rw [hn, pieces]
    dsimp only
    cases hfind : findString delimiter str with
    | none =>
      have hnone := (findString_eq_none_iff hne).mp hfind
      rw [findFrom_eq_npos hne (by rwa [List.drop_zero]), if_pos rfl]
      rfl
    | some next =>
      have hfirst := (findString_eq_some_iff hne).mp hfind
      have hroom := hfirst.add_length_le hne
      have hdelimiter := List.length_pos_iff.mpr hne
      rw [findFrom_eq_of_standsFirst hne (Nat.zero_le _) (by rwa [List.drop_zero]),
        Nat.zero_add, if_neg (by omega)]
      have hloop := loop_splitTurn condense hne hsize
        (cut_pieces hne (n := n) (by rw [List.length_drop]; omega)) hroom rfl [str.take next]
      exact ⟨fun h => h.unique hloop, fun h => h ▸ hloop⟩

/-- A turn of the loop in `join`: the stream, and whether this is the first item. -/
def joinItem (delimiter : Bytes) (s : Bytes × Bool) (item : Bytes) : Bytes × Bool :=
  (if s.2 then s.1 ++ item else s.1 ++ delimiter ++ item, false)

/-- `join` -/
def join (container : List Bytes) (delimiter : Bytes) : Bytes :=
  (container.foldl (joinItem delimiter) ([], true)).1

theorem join_eq (container : List Bytes) (delimiter : Bytes) :
    join container delimiter = delimiter.intercalate container := by
  have hrest : ∀ (container : List Bytes) (ss item : Bytes),
      (container.foldl (joinItem delimiter) (ss ++ item, false)).1 =
        ss ++ delimiter.intercalate (item :: container) := by
    intro container
    induction container with
    | nil =>
      intro ss item
      rw [List.intercalate_singleton]
      rfl
    | cons next container ih =>
      intro ss item
      have hnext := ih (ss ++ item ++ delimiter) next
      rw [List.foldl_cons, joinItem, if_neg Bool.false_ne_true, hnext,
        List.intercalate_cons_cons]
      simp only [List.append_assoc]
  unfold join
  cases container with
  | nil => rfl
  | cons item container => exact hrest container [] item

/-! ## What the pieces are -/

/-- The loop ends; the pieces joined are the string, and none holds the delimiter. -/
theorem split_pieces {str delimiter : Bytes} (hne : delimiter ≠ []) (hsize : str.length < npos) :
    (∀ result, Splits str delimiter false result ↔
      result = .ok (split str delimiter false)) ∧
    join (split str delimiter false) delimiter = str ∧
    ∀ piece ∈ split str delimiter false, ¬ delimiter <:+: piece := by
  refine ⟨splits_iff hne hsize false, ?_⟩
  by_cases hstr : str = []
  · subst hstr
    exact ⟨rfl, fun piece hpiece => absurd hpiece List.not_mem_nil⟩
  · have hcut := cut_pieces hne (Nat.le_refl str.length)
    rw [split_eq_pieces hstr, join_eq]
    exact ⟨hcut.intercalate, fun piece hpiece => hcut.not_infix hne hpiece⟩

/-- A delimiter that overlaps itself is found at its first place. -/
theorem split_pieces_overlapping :
    (∀ result, Splits (ascii "aaab") (ascii "aa") false result ↔
      result = .ok (split (ascii "aaab") (ascii "aa") false)) ∧
    join (split (ascii "aaab") (ascii "aa") false) (ascii "aa") = ascii "aaab" ∧
    ∀ piece ∈ split (ascii "aaab") (ascii "aa") false, ¬ ascii "aa" <:+: piece :=
  split_pieces (by decide) (by decide)

/-- Condensing removes the empty pieces unless the string begins with the delimiter: the first
    piece is not looked at. -/
theorem split_condense_iff {str delimiter : Bytes} (hne : delimiter ≠ []) :
    split str delimiter true = (split str delimiter false).filter (fun piece => !piece.isEmpty) ↔
      ¬ delimiter <+: str := by
  by_cases hstr : str = []
  · subst hstr
    exact iff_of_true rfl fun h => hne (List.prefix_nil.mp h)
  · obtain ⟨first, rest, hpieces⟩ := List.exists_cons_of_ne_nil
      (pieces_ne_nil delimiter str.length str)
    have hcut := cut_pieces hne (Nat.le_refl str.length)
    rw [hpieces] at hcut
    have hfirst : first = [] ↔ delimiter <+: str := by
      rw [hcut.head_eq_nil_iff, or_iff_right hstr]
    have hcondense : split str delimiter true =
        first :: rest.filter fun piece => !piece.isEmpty := by
      unfold split
      rw [List.isEmpty_eq_false_iff.mpr hstr, if_neg Bool.false_ne_true, hpieces]
      simp only [Bool.not_true, Bool.or_false]
    rw [split_eq_pieces hstr, hpieces, hcondense, List.filter_cons, ← hfirst]
    cases first with
    | nil =>
      have hlonger : ∀ pieces : List Bytes, [] :: pieces ≠ pieces := fun pieces =>
        List.cons_ne_self [] pieces
      exact iff_of_false (hlonger _) (not_not.mpr rfl)
    | cons b first => exact iff_of_true rfl (List.cons_ne_nil b first)

theorem split_condense_slash :
    split (ascii "a//b/") (ascii "/") true =
        (split (ascii "a//b/") (ascii "/") false).filter (fun piece => !piece.isEmpty) ↔
      ¬ ascii "/" <+: ascii "a//b/" :=
  split_condense_iff (by decide)

/-- The parts of `//a`: behind the first slash an empty piece stays. -/
theorem split_condense_leading : ¬ ∀ str delimiter : Bytes, delimiter ≠ [] →
    split str delimiter true =
      (split str delimiter false).filter (fun piece => !piece.isEmpty) := by
  intro h
  have hslash := h (ascii "/a") (ascii "/") (by decide)
  revert hslash
  decide

end Algiz
