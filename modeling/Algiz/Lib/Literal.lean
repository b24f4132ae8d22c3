/-
  Bodies of C++ string literals, byte by byte.

  `readItem` reads the first byte that a body denotes: a simple escape, up to three octal digits
  behind a backslash, all the hexadecimal digits behind `\x`, or a byte that stands for itself. A
  number that is no byte is ill-formed, and so is a bare quote or line end. `Means body out` says
  that the body denotes `out`; it denotes nothing else (`Means.unique`).
-/
import Mathlib.Algebra.Group.Nat.Defs
import Mathlib.Algebra.GroupWithZero.Nat
import Mathlib.Algebra.Order.Monoid.Unbundled.Pow
import Mathlib.Data.List.TakeWhile

namespace Algiz.Lib.Literal

/-! ## Digits -/

def isOctal (b : UInt8) : Bool := 48 ≤ b && b ≤ 55

def isHex (b : UInt8) : Bool := 48 ≤ b && b ≤ 57 || 65 ≤ b && b ≤ 70 || 97 ≤ b && b ≤ 102

/-- The value of a digit. -/
def digitValue (b : UInt8) : Nat :=
  if b ≤ 57 then b.toNat - 48 else if b ≤ 70 then b.toNat - 55 else b.toNat - 87

/-- The number that digits write behind a number. -/
def numberFrom (base n : Nat) (digits : List UInt8) : Nat :=
  digits.foldl (fun n d => base * n + digitValue d) n

theorem numberFrom_cons (base n : Nat) (d : UInt8) (digits : List UInt8) :
    numberFrom base n (d :: digits) = numberFrom base (base * n + digitValue d) digits := rfl

theorem digitValue_lt_of_isOctal {b : UInt8} (h : isOctal b = true) : digitValue b < 8 := by
  unfold isOctal at h
  rw [Bool.and_eq_true_iff, decide_eq_true_iff, decide_eq_true_iff, UInt8.le_iff_toNat_le,
    UInt8.le_iff_toNat_le] at h
  have hhigh : b ≤ 57 := by
    rw [UInt8.le_iff_toNat_le]
    exact Nat.le_trans h.2 (by decide)
  have hseven : b.toNat ≤ 55 := h.2
  unfold digitValue
  rw [if_pos hhigh]
  omega

theorem numberFrom_lt {base n : Nat} {digits : List UInt8}
    (h : ∀ d ∈ digits, digitValue d < base) :
    numberFrom base n digits < (n + 1) * base ^ digits.length := by
  induction digits generalizing n with
  | nil => simp [numberFrom]
  | cons d digits ih =>
    have hd := h d List.mem_cons_self
    have hrest := ih (n := base * n + digitValue d) fun e he => h e (List.mem_cons_of_mem d he)
    have hle : base * n + digitValue d + 1 ≤ base * (n + 1) := by
      rw [Nat.mul_succ]
      omega
    rw [numberFrom_cons]
    calc numberFrom base (base * n + digitValue d) digits
        < (base * n + digitValue d + 1) * base ^ digits.length := hrest
      _ ≤ base * (n + 1) * base ^ digits.length := Nat.mul_le_mul_right _ hle
      _ = (n + 1) * base ^ (digits.length + 1) := by
          rw [Nat.pow_succ, Nat.mul_comm base, Nat.mul_assoc, Nat.mul_comm base]

theorem le_numberFrom (base n : Nat) (digits : List UInt8) :
    n * base ^ digits.length ≤ numberFrom base n digits := by
  induction digits generalizing n with
  | nil => simp [numberFrom]
  | cons d digits ih =>
    rw [numberFrom_cons]
    calc n * base ^ (digits.length + 1)
        = base * n * base ^ digits.length := by
          rw [Nat.pow_succ, Nat.mul_comm base, Nat.mul_assoc, Nat.mul_comm base]
      _ ≤ (base * n + digitValue d) * base ^ digits.length :=
          Nat.mul_le_mul_right _ (Nat.le_add_right _ _)
      _ ≤ numberFrom base (base * n + digitValue d) digits := ih _

/-! ## Items -/

/-- What a simple escape stands for. -/
def simple (c : UInt8) : Option UInt8 :=
  if c = 39 ∨ c = 34 ∨ c = 63 ∨ c = 92 then some c
  else if c = 97 then some 7
  else if c = 98 then some 8
  else if c = 102 then some 12
  else if c = 110 then some 10
  else if c = 114 then some 13
  else if c = 116 then some 9
  else if c = 118 then some 11
  else none

/-- A number that has to be a byte. -/
def byte (n : Nat) : Option UInt8 := if n < 256 then some (UInt8.ofNat n) else none

/-- The byte that an escape stands for, from what follows the backslash. Names of characters are
    not read. -/
def readEscape : List UInt8 → Option (UInt8 × List UInt8)
  | [] => none
  | c :: rest =>
    match simple c with
    | some b => some (b, rest)
    | none =>
      if isOctal c then
        let digits := ((c :: rest).takeWhile isOctal).take 3
        (byte (numberFrom 8 0 digits)).map fun b => (b, (c :: rest).drop digits.length)
      else if c = 120 then
        let digits := rest.takeWhile isHex
        if digits.isEmpty then none
        else (byte (numberFrom 16 0 digits)).map fun b => (b, rest.drop digits.length)
      else none

/-- The first byte that a body denotes, and the rest of the body. -/
def readItem : List UInt8 → Option (UInt8 × List UInt8)
  | [] => none
  | b :: rest =>
    if b = 92 then readEscape rest
    else if b = 34 ∨ b = 10 then none
    else some (b, rest)

/-- The body denotes these bytes. -/
inductive Means : List UInt8 → List UInt8 → Prop
  | nil : Means [] []
  | item {body rest out : List UInt8} {b : UInt8} (h : readItem body = some (b, rest))
      (hrest : Means rest out) : Means body (b :: out)

theorem Means.unique {body out out' : List UInt8} (h : Means body out) (h' : Means body out') :
    out = out' := by
  induction h generalizing out' with
  | nil =>
    cases h' with
    | nil => rfl
    | item hitem _ => cases hitem
  | item hitem _ ih =>
    cases h' with
    | nil => cases hitem
    | item hitem' hrest' =>
      rw [hitem, Option.some_inj, Prod.mk.injEq] at hitem'
      obtain ⟨rfl, rfl⟩ := hitem'
      rw [ih hrest']

/-- A byte is read, and what it denotes goes on with what the rest denotes. -/
theorem means_iff_of_readItem {body rest out : List UInt8} {b : UInt8}
    (h : readItem body = some (b, rest)) :
    Means body out ↔ ∃ out', out = b :: out' ∧ Means rest out' := by
  constructor
  · intro hmeans
    cases hmeans with
    | nil => cases h
    | item hitem hrest =>
      rw [h, Option.some_inj, Prod.mk.injEq] at hitem
      obtain ⟨rfl, rfl⟩ := hitem
      exact ⟨_, rfl, hrest⟩
  · rintro ⟨out', rfl, hrest⟩
    exact .item h hrest

theorem not_means_of_readItem {body : List UInt8} (hne : body ≠ []) (h : readItem body = none)
    (out : List UInt8) : ¬ Means body out := by
  intro hmeans
  cases hmeans with
  | nil => exact hne rfl
  | item hitem _ =>
    rw [h] at hitem
    cases hitem

/-! ## What items are read as -/

theorem readItem_simple {c b : UInt8} (h : simple c = some b) (rest : List UInt8) :
    readItem (92 :: c :: rest) = some (b, rest) := by
  rw [readItem, if_pos rfl, readEscape, h]

theorem readItem_plain {b : UInt8} (hslash : b ≠ 92) (hquote : b ≠ 34) (hline : b ≠ 10)
    (rest : List UInt8) : readItem (b :: rest) = some (b, rest) := by
  rw [readItem, if_neg hslash, if_neg (not_or.mpr ⟨hquote, hline⟩)]

/-- `\0` takes up to two octal digits with it. -/
theorem readItem_zero (rest : List UInt8) :
    readItem (92 :: 48 :: rest) =
      some (UInt8.ofNat (numberFrom 8 0 ((rest.takeWhile isOctal).take 2)),
        rest.drop ((rest.takeWhile isOctal).take 2).length) := by
  have hdigits : ((48 :: rest).takeWhile isOctal).take 3 =
      48 :: (rest.takeWhile isOctal).take 2 := by
    rw [List.takeWhile_cons_of_pos (by decide), List.take_succ_cons]
  have hvalue : ∀ d ∈ (rest.takeWhile isOctal).take 2, digitValue d < 8 := fun d hd =>
    digitValue_lt_of_isOctal (List.mem_takeWhile_imp (List.mem_of_mem_take hd))
  have hlt := numberFrom_lt (n := 0) hvalue
  have hpow : 8 ^ ((rest.takeWhile isOctal).take 2).length ≤ 8 ^ 2 :=
    Nat.pow_le_pow_right (by decide) (List.length_take_le 2 _)
  have hbyte : byte (numberFrom 8 0 ((rest.takeWhile isOctal).take 2)) =
      some (UInt8.ofNat (numberFrom 8 0 ((rest.takeWhile isOctal).take 2))) := by
    unfold byte
    rw [if_pos (by omega)]
  rw [readItem, if_pos rfl, readEscape, show simple 48 = none from rfl]
  dsimp only
  rw [if_pos (by decide), hdigits, numberFrom_cons]
  show (byte (numberFrom 8 0 _)).map _ = _
  rw [hbyte]
  rfl

/-- `\x1b` takes all hexadecimal digits with it, which makes it no byte. -/
theorem readItem_escape (rest : List UInt8) :
    readItem (92 :: 120 :: 49 :: 98 :: rest) =
      if rest.takeWhile isHex = [] then some (27, rest) else none := by
  have hdigits : (49 :: 98 :: rest).takeWhile isHex = 49 :: 98 :: rest.takeWhile isHex := by
    rw [List.takeWhile_cons_of_pos (by decide), List.takeWhile_cons_of_pos (by decide)]
  rw [readItem, if_pos rfl, readEscape, show simple 120 = none from rfl]
  dsimp only
  rw [if_neg (by decide), if_pos rfl, hdigits]
  show (if false = true then none else (byte (numberFrom 16 27 (rest.takeWhile isHex))).map _) = _
  rw [if_neg Bool.false_ne_true]
  by_cases hnone : rest.takeWhile isHex = []
  · rw [hnone, if_pos rfl]
    rfl
  · have hpos := List.length_pos_iff.mpr hnone
    have hpow : 16 ^ 1 ≤ 16 ^ (rest.takeWhile isHex).length :=
      Nat.pow_le_pow_right (by decide) hpos
    have hle := le_numberFrom 16 27 (rest.takeWhile isHex)
    rw [if_neg hnone, byte, if_neg (by omega)]
    rfl

end Algiz.Lib.Literal
