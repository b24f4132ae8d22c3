/-
  Lists with gaps, written as runs.

  `runs` writes a list of places, some of them empty, as what stands in it and the lengths of the
  gaps in between. `expand` reads it back (`expand_runs`). A gap is written at once: no two lengths
  follow one another (`runs_separate`), none is zero and none is longer than the list
  (`length_of_mem_runs`).
-/
import Mathlib.Data.List.Chain
import Mathlib.Data.List.Flatten

namespace Algiz.Lib

variable {α : Type*}

/-- Runs of empty places as their lengths, and what stands in between. -/
def runs : List (Option α) → List (Nat ⊕ α)
  | [] => []
  | some a :: rest => .inr a :: runs rest
  | none :: rest =>
    match runs rest with
    | .inl n :: more => .inl (n + 1) :: more
    | more => .inl 1 :: more

/-- The places that runs are written for. -/
def expand (written : List (Nat ⊕ α)) : List (Option α) :=
  written.flatMap fun
    | .inl n => List.replicate n none
    | .inr a => [some a]

@[simp] theorem runs_some (a : α) (rest : List (Option α)) :
    runs (some a :: rest) = .inr a :: runs rest := rfl

@[simp] theorem expand_nil : expand ([] : List (Nat ⊕ α)) = [] := rfl

@[simp] theorem expand_gap (n : Nat) (rest : List (Nat ⊕ α)) :
    expand (.inl n :: rest) = List.replicate n none ++ expand rest := rfl

@[simp] theorem expand_some (a : α) (rest : List (Nat ⊕ α)) :
    expand (.inr a :: rest) = some a :: expand rest := rfl

/-- One more empty place makes the first gap longer, or is a gap of its own. -/
theorem runs_none (rest : List (Option α)) :
    (∃ n more, runs rest = .inl n :: more ∧ runs (none :: rest) = .inl (n + 1) :: more) ∨
      ((∀ n more, runs rest ≠ .inl n :: more) ∧ runs (none :: rest) = .inl 1 :: runs rest) := by
  rw [runs]
  split
  · rename_i n more heq
    exact .inl ⟨n, more, heq, rfl⟩
  · rename_i hnot
    exact .inr ⟨hnot, rfl⟩

theorem expand_runs (places : List (Option α)) : expand (runs places) = places := by
  induction places with
  | nil => rfl
  | cons place rest ih =>
    cases place with
    | some a => rw [runs_some, expand_some, ih]
    | none =>
      obtain ⟨n, more, hrest, hruns⟩ | ⟨-, hruns⟩ := runs_none rest
      · rw [hrest, expand_gap] at ih
        rw [hruns, expand_gap, List.replicate_succ, List.cons_append, ih]
      · rw [hruns, expand_gap, ih]
        rfl

/-- A gap is written as one number. -/
theorem runs_separate (places : List (Option α)) :
    (runs places).IsChain fun a b => ¬(a.isLeft = true ∧ b.isLeft = true) := by
  induction places with
  | nil => exact List.isChain_nil
  | cons place rest ih =>
    cases place with
    | some a =>
      rw [runs_some, List.isChain_cons]
      exact ⟨fun _ _ h => Bool.noConfusion h.1, ih⟩
    | none =>
      obtain ⟨n, more, hrest, hruns⟩ | ⟨hnot, hruns⟩ := runs_none rest
      · rw [hrest, List.isChain_cons] at ih
        rw [hruns, List.isChain_cons]
        exact ⟨fun b hb h => ih.1 b hb ⟨rfl, h.2⟩, ih.2⟩
      · rw [hruns, List.isChain_cons]
        refine ⟨fun b hb h => ?_, ih⟩
        cases b with
        | inr a => exact Bool.noConfusion h.2
        | inl n =>
          obtain ⟨more, hmore⟩ := List.head?_eq_some_iff.mp hb
          exact hnot n more hmore

/-- No gap is empty, and none is longer than the list. -/
theorem length_of_mem_runs {places : List (Option α)} {n : Nat} (h : .inl n ∈ runs places) :
    0 < n ∧ n ≤ places.length := by
  induction places generalizing n with
  | nil => exact absurd h List.not_mem_nil
  | cons place rest ih =>
    rw [List.length_cons]
    cases place with
    | some a =>
      rw [runs_some, List.mem_cons] at h
      have := ih (h.resolve_left Sum.inl_ne_inr)
      omega
    | none =>
      obtain ⟨k, more, hrest, hruns⟩ | ⟨-, hruns⟩ := runs_none rest
      · rw [hrest] at ih
        rw [hruns, List.mem_cons] at h
        rcases h with heq | hmem
        · have := ih (n := k) List.mem_cons_self
          have := Sum.inl.inj heq
          omega
        · have := ih (List.mem_cons_of_mem _ hmem)
          omega
      · rw [hruns, List.mem_cons] at h
        rcases h with heq | hmem
        · have := Sum.inl.inj heq
          omega
        · have := ih hmem
          omega

/-- A gap, and behind it nothing or a place that is taken. -/
theorem runs_gap (n : Nat) {rest : List (Option α)} (hrest : rest.head? ≠ some none) :
    runs (List.replicate (n + 1) none ++ rest) = .inl (n + 1) :: runs rest := by
  induction n with
  | zero =>
    obtain ⟨k, more, hruns, -⟩ | ⟨-, hruns⟩ := runs_none rest
    · cases rest with
      | nil => exact nomatch hruns
      | cons place rest =>
        cases place with
        | none => exact absurd rfl hrest
        | some a => exact nomatch hruns
    · exact hruns
  | succ n ih =>
    have hcons : List.replicate (n + 2) none ++ rest =
        none :: (List.replicate (n + 1) none ++ rest) := rfl
    obtain ⟨k, more, hruns, hnext⟩ | ⟨hnot, -⟩ := runs_none (List.replicate (n + 1) none ++ rest)
    · rw [ih] at hruns
      obtain ⟨hk, rfl⟩ := List.cons.inj hruns
      rw [hcons, hnext, Sum.inl.inj hk]
    · exact absurd ih (hnot _ _)

end Algiz.Lib
