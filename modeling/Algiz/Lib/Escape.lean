/-
  Escapes over any alphabet.

  An escape symbol and the two symbols behind it stand for one symbol if the two can be read as
  one; an escape symbol that nothing follows which can be read stands for itself, and every other
  symbol for its plain meaning. Decoding undoes every encoder whose codes mean what they were
  written for (`decode_encode`).
-/
import Mathlib.Data.List.Basic

namespace Algiz.Lib

/-- How escapes are written. -/
structure Escape (α : Type*) where
  /-- the escape symbol -/
  mark : α
  /-- what a symbol that is no escape stands for -/
  plain : α → α
  /-- what the two symbols behind an escape symbol stand for -/
  pair : α → α → Option α

namespace Escape

variable {α : Type*} [DecidableEq α] (e : Escape α)

/-- What a string stands for. -/
def decode : List α → List α
  | [] => []
  | c :: a :: b :: rest =>
    if c = e.mark then
      match e.pair a b with
      | some x => x :: decode rest
      | none => c :: decode (a :: b :: rest)
    else e.plain c :: decode (a :: b :: rest)
  | c :: rest => if c = e.mark then c :: decode rest else e.plain c :: decode rest

@[simp] theorem decode_nil : e.decode [] = [] := rfl

/-- A symbol that is no escape symbol. -/
theorem decode_plain {c : α} (hc : c ≠ e.mark) (rest : List α) :
    e.decode (c :: rest) = e.plain c :: e.decode rest := by
  match rest with
  | [] => simp [decode, hc]
  | [_] => simp [decode, hc]
  | _ :: _ :: _ => rw [decode, if_neg hc]

/-- An escape. -/
theorem decode_pair {a b x : α} (hpair : e.pair a b = some x) (rest : List α) :
    e.decode (e.mark :: a :: b :: rest) = x :: e.decode rest := by
  rw [decode, if_pos rfl, hpair]

/-- An escape symbol with two symbols behind it that cannot be read. -/
theorem decode_no_pair {a b : α} (hpair : e.pair a b = none) (rest : List α) :
    e.decode (e.mark :: a :: b :: rest) = e.mark :: e.decode (a :: b :: rest) := by
  rw [decode, if_pos rfl, hpair]

/-- An escape symbol with fewer than two symbols behind it. -/
theorem decode_short {rest : List α} (hrest : rest.length < 2) :
    e.decode (e.mark :: rest) = e.mark :: e.decode rest := by
  match rest, hrest with
  | [], _ => simp [decode]
  | [_], _ => simp [decode]

/-- Without an escape symbol every symbol is plain. -/
theorem decode_of_not_mem {s : List α} (hs : e.mark ∉ s) : e.decode s = s.map e.plain := by
  induction s with
  | nil => rfl
  | cons c s ih =>
    simp only [List.mem_cons, not_or] at hs
    rw [decode_plain e (Ne.symm hs.1), ih hs.2, List.map_cons]

/-- The code of every symbol is a plain symbol or an escape that stands for it. -/
def Writes (encode : α → List α) : Prop :=
  ∀ x, (∃ c, encode x = [c] ∧ c ≠ e.mark ∧ e.plain c = x) ∨
    ∃ a b, encode x = [e.mark, a, b] ∧ e.pair a b = some x

/-- What was written code by code is read back. -/
theorem decode_encode {encode : α → List α} (h : e.Writes encode) (s rest : List α) :
    e.decode (s.flatMap encode ++ rest) = s ++ e.decode rest := by
  induction s with
  | nil => rfl
  | cons x s ih =>
    rw [List.flatMap_cons, List.append_assoc, List.cons_append]
    obtain ⟨c, hcode, hc, hplain⟩ | ⟨a, b, hcode, hpair⟩ := h x
    · rw [hcode, List.cons_append, List.nil_append, decode_plain e hc, hplain, ih]
    · rw [hcode, List.cons_append, List.cons_append, List.cons_append, List.nil_append,
        decode_pair e hpair, ih]

end Escape

end Algiz.Lib
