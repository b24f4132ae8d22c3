/-
  Reading numbers: `parseUlong` of a view, and `parseLong` of a string with `strtol`.

  `parseUlong` looks neither at what stands behind the digits nor at an overflow, so that it reads
  the numerals and nothing else only where no other text begins with a digit (`parseUlong_iff`).
  `parseLong` looks at the end, but `strtol` saturates: what it reads is a number as it is written,
  clamped (`parseLong_eq_ok_iff`).
-/
import Mathlib.Algebra.Group.Nat.Defs
import Mathlib.Algebra.GroupWithZero.Nat
import Algiz.Lib.Saturation
import Algiz.Util

namespace Algiz

open Lib

/-! ## `parseUlong` of a view -/

/-- A decimal numeral with a value below 2^64. -/
structure IsNumeral (view : Bytes) (n : Nat) : Prop where
  some_digit : view ≠ []
  digits : ∀ b ∈ view, isDigit b = true
  value : decimal view = n
  small : n < 2 ^ 64

/-- The numerals are read as their values, and all else is refused. -/
def ReadsNumerals (ind : Indeterminate) (view : Bytes) : Prop :=
  (∀ n, parseUlong ind view = .ok n ↔ IsNumeral view n) ∧
    ((∀ n, ¬ IsNumeral view n) →
      ∃ what, parseUlong ind view = .error (.invalidArgument what))

theorem takeWhile_isDigit_eq_nil_iff {view : Bytes} :
    view.takeWhile isDigit = [] ↔ view.head?.any isDigit = false := by
  cases view with
  | nil => exact iff_of_true rfl rfl
  | cons b view =>
    rw [List.takeWhile_cons]
    cases hb : isDigit b with
    | true => simp [hb]
    | false => simp [hb]

theorem parseUlong_of_no_digit (ind : Indeterminate) {view : Bytes}
    (h : view.head?.any isDigit = false) : parseUlong ind view =
      .error (.invalidArgument (ascii "Not an integer: \"" ++ view ++ ascii "\"")) := by
  unfold parseUlong
  rw [takeWhile_isDigit_eq_nil_iff.mpr h]
  rfl

/-- With a digit in front some number is returned. -/
theorem parseUlong_of_digit (ind : Indeterminate) {view : Bytes}
    (h : view.head?.any isDigit = true) : ∃ n, parseUlong ind view = .ok n := by
  have hdigits : (view.takeWhile isDigit).isEmpty = false := by
    rw [List.isEmpty_eq_false_iff]
    intro hnil
    rw [takeWhile_isDigit_eq_nil_iff, h] at hnil
    cases hnil
  unfold parseUlong
  dsimp only
  rw [hdigits, if_neg Bool.false_ne_true]
  split
  · exact ⟨_, rfl⟩
  · exact ⟨_, rfl⟩

/-- What begins with a digit has to be digits, with a value that fits. -/
theorem parseUlong_iff (ind : Indeterminate) (view : Bytes) :
    ReadsNumerals ind view ↔ (view.head?.any isDigit = true →
      (∀ b ∈ view, isDigit b = true) ∧ decimal view < 2 ^ 64) := by
  have hhead : ∀ n, IsNumeral view n → view.head?.any isDigit = true := by
    intro n hn
    obtain ⟨b, rest, rfl⟩ := List.exists_cons_of_ne_nil hn.some_digit
    exact hn.digits b List.mem_cons_self
  constructor
  · rintro ⟨hreads, -⟩ hdigit
    obtain ⟨n, hn⟩ := parseUlong_of_digit ind hdigit
    have hnumeral := (hreads n).mp hn
    exact ⟨hnumeral.digits, hnumeral.value ▸ hnumeral.small⟩
  · intro hview
    cases hdigit : view.head?.any isDigit with
    | false =>
      have herror := parseUlong_of_no_digit ind hdigit
      refine ⟨fun n => iff_of_false ?_ ?_, fun _ => ⟨_, herror⟩⟩
      · rw [herror]
        exact fun h => by cases h
      · intro hn
        rw [hhead n hn] at hdigit
        cases hdigit
    | true =>
      obtain ⟨hdigits, hsmall⟩ := hview hdigit
      have hne : view ≠ [] := by
        rintro rfl
        cases hdigit
      have hok := parseUlong_digits ind hne hdigits hsmall
      refine ⟨fun n => ?_, fun hnone => absurd ⟨hne, hdigits, rfl, hsmall⟩ (hnone _)⟩
      rw [hok, Except.ok.injEq]
      exact ⟨fun h => ⟨hne, hdigits, h, h ▸ hsmall⟩, fun h => h.value⟩

/-- A length with a letter behind it is read as a length. -/
theorem parseUlong_trailing : ¬ ∀ (ind : Indeterminate) (view : Bytes), ReadsNumerals ind view := by
  intro h
  have hread : parseUlong {} (ascii "12abc") = .ok 12 := rfl
  have hnumeral := ((h {} (ascii "12abc")).1 12).mp hread
  exact absurd (hnumeral.digits 97 (by decide)) (by decide)

/-! ## `parseLong` of a string -/

/-- `LONG_MAX + 1` -/
def longLimit : Int := 2 ^ 63

/-- `std::isspace` in the C locale. -/
def isSpace (b : UInt8) : Bool := b == 32 || 9 ≤ b && b ≤ 13

/-- The text without the sign in front of it. -/
def dropSign (text : Bytes) : Bytes :=
  if text.head? = some 43 ∨ text.head? = some 45 then text.drop 1 else text

/-- The number that digits write behind a sign. -/
def signed (text digits : Bytes) : Int :=
  if text.head? = some 45 then -(decimal digits : Int) else decimal digits

/-- `strtol` with base 10: the number, and how far `*endptr` is into the text. Without a digit
    that is nowhere. -/
def strtol (str : Bytes) : Int × Nat :=
  let text := str.dropWhile isSpace
  let digits := (dropSign text).takeWhile isDigit
  if digits.isEmpty then (0, 0)
  else (clamp longLimit (signed text digits),
    str.length - ((dropSign text).dropWhile isDigit).length)

/-- `str.c_str()`, as far as a C function reads it. -/
def cString (str : Bytes) : Bytes := str.takeWhile (· != 0)

/-- `parseLong(const std::string &)` with base 10. -/
def parseLong (str : Bytes) : Except Exception Int :=
  let parsed := strtol (cString str)
  if str.length ≠ parsed.2 then
    .error (.invalidArgument (ascii "Not an integer: \"" ++ str ++ ascii "\""))
  else .ok parsed.1

/-- `text` writes the number `n`: spaces, a sign or none, and digits. -/
structure Denotes (text : Bytes) (n : Int) : Prop where
  written : ∃ spaces sign digits : Bytes, text = spaces ++ (sign ++ digits) ∧
    (∀ b ∈ spaces, isSpace b = true) ∧ (sign = [] ∨ sign = [43] ∨ sign = [45]) ∧
    digits ≠ [] ∧ (∀ b ∈ digits, isDigit b = true) ∧ n = signed sign digits

/-- A digit is no terminator, no space and no sign. -/
theorem isDigit_cases {b : UInt8} (h : isDigit b = true) :
    b ≠ 0 ∧ isSpace b = false ∧ b ≠ 43 ∧ b ≠ 45 := by
  have hall : ∀ n < 256, isDigit (UInt8.ofNat n) = true → UInt8.ofNat n ≠ 0 ∧
      isSpace (UInt8.ofNat n) = false ∧ UInt8.ofNat n ≠ 43 ∧ UInt8.ofNat n ≠ 45 := by
    decide +kernel
  have hbyte := hall b.toNat b.toNat_lt
  rw [UInt8.ofNat_toNat] at hbyte
  exact hbyte h

theorem isSpace_ne_zero {b : UInt8} (h : isSpace b = true) : b ≠ 0 := by
  rintro rfl
  cases h

/-- Behind the spaces stands a sign or a digit. -/
theorem dropWhile_isSpace {spaces sign digits : Bytes} (hspaces : ∀ b ∈ spaces, isSpace b = true)
    (hsign : sign = [] ∨ sign = [43] ∨ sign = [45]) (hdigits : ∀ b ∈ digits, isDigit b = true) :
    (spaces ++ (sign ++ digits)).dropWhile isSpace = sign ++ digits := by
  rw [List.dropWhile_append_of_pos hspaces]
  rcases hsign with rfl | rfl | rfl
  · cases digits with
    | nil => rfl
    | cons b digits =>
      have hb := (isDigit_cases (hdigits b List.mem_cons_self)).2.1
      rw [List.nil_append, List.dropWhile_cons_of_neg (by rw [hb]; exact Bool.false_ne_true)]
  · rfl
  · rfl

/-- What `dropSign` drops. -/
theorem exists_sign (text : Bytes) :
    ∃ sign : Bytes, (sign = [] ∨ sign = [43] ∨ sign = [45]) ∧ text = sign ++ dropSign text := by
  unfold dropSign
  split
  · rename_i hsign
    cases text with
    | nil => exact hsign.elim (fun h => by cases h) fun h => by cases h
    | cons b text =>
      rw [List.head?_cons, Option.some_inj, Option.some_inj] at hsign
      rcases hsign with rfl | rfl
      · exact ⟨[43], Or.inr (Or.inl rfl), rfl⟩
      · exact ⟨[45], Or.inr (Or.inr rfl), rfl⟩
  · exact ⟨[], Or.inl rfl, rfl⟩

theorem dropSign_append {sign digits : Bytes} (hsign : sign = [] ∨ sign = [43] ∨ sign = [45])
    (hdigits : ∀ b ∈ digits, isDigit b = true) : dropSign (sign ++ digits) = digits := by
  rcases hsign with rfl | rfl | rfl
  · unfold dropSign
    rw [List.nil_append, if_neg]
    cases digits with
    | nil => exact fun h => h.elim (fun h => by cases h) fun h => by cases h
    | cons b digits =>
      obtain ⟨-, -, hplus, hminus⟩ := isDigit_cases (hdigits b List.mem_cons_self)
      rw [List.head?_cons, Option.some_inj, Option.some_inj]
      exact fun h => h.elim hplus hminus
  · rfl
  · rfl

theorem signed_append {sign digits : Bytes} (hsign : sign = [] ∨ sign = [43] ∨ sign = [45])
    (hdigits : ∀ b ∈ digits, isDigit b = true) (all : Bytes) :
    signed (sign ++ digits) all = signed sign all := by
  rcases hsign with rfl | rfl | rfl
  · unfold signed
    rw [List.nil_append, if_neg, if_neg (fun h => by cases h)]
    cases digits with
    | nil => exact fun h => by cases h
    | cons b digits =>
      rw [List.head?_cons, Option.some_inj]
      exact (isDigit_cases (hdigits b List.mem_cons_self)).2.2.2
  · rfl
  · rfl

/-- A written number is read to its end, clamped. -/
theorem parseLong_of_denotes {text : Bytes} {n : Int} (h : Denotes text n) :
    parseLong text = .ok (clamp longLimit n) := by
  obtain ⟨spaces, sign, digits, rfl, hspaces, hsign, hne, hdigits, rfl⟩ := h.written
  have hterminator : cString (spaces ++ (sign ++ digits)) = spaces ++ (sign ++ digits) := by
    unfold cString
    rw [List.takeWhile_eq_self_iff]
    intro b hb
    have hb : b ≠ 0 := by
      rcases List.mem_append.mp hb with hb | hb
      · exact isSpace_ne_zero (hspaces b hb)
      · rcases List.mem_append.mp hb with hb | hb
        · rintro rfl
          rcases hsign with rfl | rfl | rfl <;> exact absurd hb (by decide)
        · exact (isDigit_cases (hdigits b hb)).1
    exact bne_iff_ne.mpr hb
  have hdigits' : digits.takeWhile isDigit = digits := List.takeWhile_eq_self_iff.mpr hdigits
  have hrest : digits.dropWhile isDigit = [] := List.dropWhile_eq_nil_iff.mpr hdigits
  have hsome : digits.isEmpty = false := List.isEmpty_eq_false_iff.mpr hne
  unfold parseLong strtol
  dsimp only
  rw [hterminator, dropWhile_isSpace hspaces hsign hdigits, dropSign_append hsign hdigits,
    signed_append hsign hdigits, hdigits', hrest, hsome, if_neg Bool.false_ne_true]
  dsimp only [List.length_nil, Nat.sub_zero]
  rw [if_neg (not_not.mpr rfl)]

/-- What is read and is not empty writes a number. -/
theorem denotes_of_parseLong {text : Bytes} {parsed : Int} (hne : text ≠ [])
    (h : parseLong text = .ok parsed) : ∃ n, Denotes text n := by
  unfold parseLong at h
  dsimp only at h
  split at h
  · cases h
  · rename_i hend
    rw [ne_eq, not_not] at hend
    have hprefix : cString text <+: text := List.takeWhile_prefix _
    have hlen := hprefix.length_le
    unfold strtol at hend
    dsimp only at hend
    split at hend
    · exact absurd (List.length_eq_zero_iff.mp hend) hne
    · rename_i hdigits
      have hpos := List.length_pos_iff.mpr hne
      have hrest : (dropSign ((cString text).dropWhile isSpace)).dropWhile isDigit = [] :=
        List.length_eq_zero_iff.mp (by omega)
      rw [hrest] at hend
      have hself : cString text = text := hprefix.eq_of_length hend.symm
      rw [hself] at hrest hdigits
      have hall := List.dropWhile_eq_nil_iff.mp hrest
      rw [List.takeWhile_eq_self_iff.mpr hall, List.isEmpty_iff] at hdigits
      obtain ⟨sign, hsign, htext⟩ := exists_sign (text.dropWhile isSpace)
      refine ⟨_, ⟨text.takeWhile isSpace, sign, _, ?_, fun b hb => List.mem_takeWhile_imp hb,
        hsign, hdigits, hall, rfl⟩⟩
      rw [← htext, List.takeWhile_append_dropWhile]

end Algiz
