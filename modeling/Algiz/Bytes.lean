/-
  Byte strings. `std::string` and `std::string_view` are lists of bytes; a view is the part of
  the string it shows.
-/
import Mathlib.Data.List.Basic

namespace Algiz

/-- The bytes of a `std::string` or of what a `std::string_view` shows. -/
abbrev Bytes := List UInt8

/-- The bytes of a string literal (ASCII). -/
def ascii (s : String) : Bytes := s.toList.map fun c => UInt8.ofNat c.toNat

/-- `'\n'` -/
def newline : UInt8 := 10

/-- `'\r'` -/
def carriageReturn : UInt8 := 13

/-- `view.find(byte)`; `none` is `npos`. -/
def find (view : Bytes) (byte : UInt8) : Option Nat := view.idxOf? byte

theorem find_eq_none {view : Bytes} {byte : UInt8} : find view byte = none ↔ byte ∉ view := by
  simp [find]

/-- Where a byte is found, what stands before it does not hold the byte. -/
theorem find_eq_some {view : Bytes} {byte : UInt8} {i : Nat} (h : find view byte = some i) :
    byte ∉ view.take i ∧ view = view.take i ++ byte :: view.drop (i + 1) := by
  rw [find, List.idxOf?_eq_some_iff] at h
  obtain ⟨hi, hget, hbefore⟩ := h
  refine ⟨?_, ?_⟩
  · intro hmem
    obtain ⟨j, hj, hjget⟩ := List.getElem_of_mem hmem
    rw [List.getElem_take] at hjget
    rw [List.length_take] at hj
    exact hbefore j (by omega) hjget
  · conv => lhs; rw [← List.take_append_drop i view, List.drop_eq_getElem_cons hi, hget]

theorem find_append_cons {line rest : Bytes} {byte : UInt8} (h : byte ∉ line) :
    find (line ++ byte :: rest) byte = some line.length := by
  induction line with
  | nil => simp [find, List.idxOf?_cons]
  | cons b line ih =>
    simp only [List.mem_cons, not_or] at h
    have := ih h.2
    simp only [find] at this ⊢
    rw [List.cons_append, List.idxOf?_cons, this]
    simp [Ne.symm h.1]

end Algiz
