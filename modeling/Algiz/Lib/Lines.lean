/-
  Streams cut at a delimiter, over any alphabet.

  `lines d s` are the pieces of `s` that a delimiter `d` ends, without it, and `unfinished d s`
  is what follows the last delimiter. Together they are `s` (`join_lines`), and a stream that
  arrives in two parts has the lines of the first part and then those of the second part with
  the unfinished line in front of it (`lines_append`). `chunks n s` cuts `s` every `n` places.
-/
import Mathlib.Algebra.GroupWithZero.Nat
import Mathlib.Data.List.Basic

namespace Algiz.Lib

section Lines

variable {α : Type*} [DecidableEq α]

/-! ## Lines -/

/-- The lines of `s` and what follows the last of them. -/
def splitLines (d : α) : List α → List (List α) × List α
  | [] => ([], [])
  | a :: s =>
    if a = d then ([] :: (splitLines d s).1, (splitLines d s).2)
    else match splitLines d s with
      | ([], r) => ([], a :: r)
      | (l :: ls, r) => ((a :: l) :: ls, r)

/-- The pieces of `s` that end in the delimiter, without it. -/
def lines (d : α) (s : List α) : List (List α) := (splitLines d s).1

/-- What follows the last delimiter. -/
def unfinished (d : α) (s : List α) : List α := (splitLines d s).2

@[simp] theorem lines_nil (d : α) : lines d [] = [] := rfl

@[simp] theorem unfinished_nil (d : α) : unfinished d [] = [] := rfl

theorem splitLines_line (d : α) {l : List α} (hl : d ∉ l) (s : List α) :
    splitLines d (l ++ d :: s) = (l :: lines d s, unfinished d s) := by
  induction l with
  | nil => simp [splitLines, lines, unfinished]
  | cons a l ih =>
    simp only [List.mem_cons, not_or] at hl
    rw [List.cons_append, splitLines, if_neg (Ne.symm hl.1), ih hl.2]

theorem lines_line (d : α) {l : List α} (hl : d ∉ l) (s : List α) :
    lines d (l ++ d :: s) = l :: lines d s := by
  rw [lines, splitLines_line d hl]

theorem unfinished_line (d : α) {l : List α} (hl : d ∉ l) (s : List α) :
    unfinished d (l ++ d :: s) = unfinished d s := by
  rw [unfinished, splitLines_line d hl]

theorem splitLines_of_not_mem (d : α) {s : List α} (hs : d ∉ s) : splitLines d s = ([], s) := by
  induction s with
  | nil => rfl
  | cons a s ih =>
    simp only [List.mem_cons, not_or] at hs
    rw [splitLines, if_neg (Ne.symm hs.1), ih hs.2]

theorem lines_of_not_mem (d : α) {s : List α} (hs : d ∉ s) : lines d s = [] := by
  rw [lines, splitLines_of_not_mem d hs]

theorem unfinished_of_not_mem (d : α) {s : List α} (hs : d ∉ s) : unfinished d s = s := by
  rw [unfinished, splitLines_of_not_mem d hs]

/-- A stream either holds no delimiter or starts with a line. -/
theorem eq_line_append (d : α) (s : List α) :
    d ∉ s ∨ ∃ l t, d ∉ l ∧ s = l ++ d :: t := by
  by_cases h : d ∈ s
  · obtain ⟨l, t, rfl, hl⟩ := List.eq_append_cons_of_mem h
    exact Or.inr ⟨l, t, hl, rfl⟩
  · exact Or.inl h

/-- Induction over a stream, one line at a time. -/
theorem lineInduction (d : α) {P : List α → Prop} (tail : ∀ s, d ∉ s → P s)
    (line : ∀ l t, d ∉ l → P t → P (l ++ d :: t)) (s : List α) : P s := by
  induction hn : s.length using Nat.strongRecOn generalizing s with
  | ind n ih =>
    rcases eq_line_append d s with h | ⟨l, t, hl, rfl⟩
    · exact tail s h
    · refine line l t hl (ih t.length ?_ t rfl)
      simp only [List.length_append, List.length_cons] at hn
      omega

theorem not_mem_unfinished (d : α) (s : List α) : d ∉ unfinished d s := by
  induction s using lineInduction d with
  | tail s hs => rwa [unfinished_of_not_mem d hs]
  | line l t hl ih => rwa [unfinished_line d hl]

/-- No line holds the delimiter. -/
theorem not_mem_of_mem_lines (d : α) {s l : List α} (h : l ∈ lines d s) : d ∉ l := by
  induction s using lineInduction d with
  | tail s hs =>
    rw [lines_of_not_mem d hs] at h
    exact absurd h List.not_mem_nil
  | line first t hfirst ih =>
    rw [lines_line d hfirst] at h
    rcases List.mem_cons.mp h with rfl | h
    · exact hfirst
    · exact ih h

theorem join_lines (d : α) (s : List α) :
    (lines d s).flatMap (· ++ [d]) ++ unfinished d s = s := by
  induction s using lineInduction d with
  | tail s hs => simp [lines_of_not_mem d hs, unfinished_of_not_mem d hs]
  | line l t hl ih =>
    rw [lines_line d hl, unfinished_line d hl, List.flatMap_cons, List.append_assoc, ih]
    simp

/-- The lines of a stream, what follows them, and a delimiter for each line. -/
theorem length_lines (d : α) (s : List α) :
    (lines d s).flatten.length + (lines d s).length + (unfinished d s).length = s.length := by
  induction s using lineInduction d with
  | tail s hs => simp [lines_of_not_mem d hs, unfinished_of_not_mem d hs]
  | line l t hl ih =>
    rw [lines_line d hl, unfinished_line d hl]
    simp only [List.flatten_cons, List.length_append, List.length_cons]
    omega

theorem lines_eq_nil_iff (d : α) (s : List α) : lines d s = [] ↔ d ∉ s := by
  constructor
  · intro h
    rcases eq_line_append d s with hs | ⟨l, t, hl, rfl⟩
    · exact hs
    · rw [lines_line d hl] at h
      exact absurd h (List.cons_ne_nil _ _)
  · exact lines_of_not_mem d

theorem length_unfinished_le (d : α) (s : List α) : (unfinished d s).length ≤ s.length := by
  conv => rhs; rw [← join_lines d s]
  simp

theorem drop_lines (d : α) (s : List α) :
    s.drop (s.length - (unfinished d s).length) = unfinished d s := by
  have hj := join_lines d s
  generalize (lines d s).flatMap (· ++ [d]) = joined at hj
  generalize unfinished d s = rest at hj ⊢
  subst hj
  rw [List.length_append, Nat.add_sub_cancel, List.drop_left]

theorem lines_append (d : α) (s t : List α) :
    lines d (s ++ t) = lines d s ++ lines d (unfinished d s ++ t) := by
  induction s using lineInduction d with
  | tail s hs => simp [lines_of_not_mem d hs, unfinished_of_not_mem d hs]
  | line l s hl ih =>
    rw [List.append_assoc, List.cons_append, lines_line d hl, lines_line d hl,
      unfinished_line d hl, ih, List.cons_append]

theorem unfinished_append (d : α) (s t : List α) :
    unfinished d (s ++ t) = unfinished d (unfinished d s ++ t) := by
  induction s using lineInduction d with
  | tail s hs => rw [unfinished_of_not_mem d hs]
  | line l s hl ih =>
    rw [List.append_assoc, List.cons_append, unfinished_line d hl, unfinished_line d hl, ih]

/-- Nothing is unfinished exactly when the stream is empty or ends in the delimiter. -/
theorem unfinished_eq_nil_iff (d : α) (s : List α) :
    unfinished d s = [] ↔ s = [] ∨ s.getLast? = some d := by
  induction s using lineInduction d with
  | tail s hs =>
    rw [unfinished_of_not_mem d hs]
    refine ⟨Or.inl, fun h => h.resolve_right fun hl => hs (List.mem_of_getLast? hl)⟩
  | line l t hl ih =>
    rw [unfinished_line d hl, ih]
    cases t with
    | nil => simp
    | cons a t => simp [List.getLast?_append, List.getLast?_cons]

/-! ## Fields -/

/-- The pieces of `s` between the delimiters: its lines, and what is unfinished. -/
def fields (d : α) (s : List α) : List (List α) := lines d s ++ [unfinished d s]

theorem fields_of_not_mem (d : α) {s : List α} (hs : d ∉ s) : fields d s = [s] := by
  rw [fields, lines_of_not_mem d hs, unfinished_of_not_mem d hs, List.nil_append]

theorem fields_line (d : α) {l : List α} (hl : d ∉ l) (s : List α) :
    fields d (l ++ d :: s) = l :: fields d s := by
  rw [fields, lines_line d hl, unfinished_line d hl, List.cons_append, fields]

theorem fields_append_cons (d : α) (s t : List α) :
    fields d (s ++ d :: t) = fields d s ++ fields d t := by
  induction s using lineInduction d with
  | tail s hs => rw [fields_line d hs, fields_of_not_mem d hs, List.singleton_append]
  | line l s hl ih =>
    rw [List.append_assoc, List.cons_append, fields_line d hl, ih, fields_line d hl,
      List.cons_append]

omit [DecidableEq α] in
/-- What is in joined strings is the delimiter, or in one of them. -/
theorem mem_intercalate {d a : α} {parts : List (List α)} (h : a ∈ [d].intercalate parts) :
    a = d ∨ ∃ part ∈ parts, a ∈ part := by
  induction parts with
  | nil => exact absurd h List.not_mem_nil
  | cons part parts ih =>
    cases parts with
    | nil =>
      rw [List.intercalate_singleton] at h
      exact .inr ⟨part, List.mem_cons_self, h⟩
    | cons next parts =>
      rw [List.intercalate_cons_cons, List.mem_append, List.mem_append] at h
      rcases h with (hpart | hd) | hrest
      · exact .inr ⟨part, List.mem_cons_self, hpart⟩
      · exact .inl (List.mem_singleton.mp hd)
      · refine (ih hrest).imp_right ?_
        rintro ⟨other, hother, ha⟩
        exact ⟨other, List.mem_cons_of_mem part hother, ha⟩

/-- Strings joined by the delimiter have the fields of each, in order. -/
theorem fields_intercalate (d : α) {parts : List (List α)} (hne : parts ≠ []) :
    fields d ([d].intercalate parts) = parts.flatMap (fields d) := by
  induction parts with
  | nil => exact absurd rfl hne
  | cons part parts ih =>
    cases parts with
    | nil => rw [List.intercalate_singleton, List.flatMap_singleton]
    | cons next parts =>
      rw [List.intercalate_cons_cons, List.append_assoc, List.singleton_append, fields_append_cons,
        ih (List.cons_ne_nil _ _)]
      rfl

/-- The weight of a string is that of its fields and of the delimiters between them. -/
theorem sum_fields (d : α) (weight : α → Nat) (s : List α) :
    ((fields d s).map fun field => (field.map weight).sum).sum + weight d * (fields d s).length =
      (s.map weight).sum + weight d := by
  induction s using lineInduction d with
  | tail s hs =>
    rw [fields_of_not_mem d hs]
    simp
  | line l s hl ih =>
    rw [fields_line d hl]
    simp only [List.map_cons, List.sum_cons, List.length_cons, List.map_append, List.sum_append,
      Nat.mul_succ]
    omega

end Lines

/-! ## Chunks -/

variable {α : Type*}

/-- `s` cut every `n` places; the last piece may be shorter. -/
def chunks (n : Nat) (s : List α) : List (List α) :=
  if _h : n = 0 ∨ s = [] then [] else s.take n :: chunks n (s.drop n)
termination_by s.length
decreasing_by
  simp only [not_or] at _h
  have := List.length_pos_of_ne_nil _h.2
  simp only [List.length_drop]
  omega

theorem chunks_nil (n : Nat) : chunks n ([] : List α) = [] := by
  rw [chunks]; simp

theorem chunks_of_ne_nil {n : Nat} (hn : 0 < n) {s : List α} (hs : s ≠ []) :
    chunks n s = s.take n :: chunks n (s.drop n) := by
  rw [chunks, dif_neg (by simp [hs]; omega)]

end Algiz.Lib
