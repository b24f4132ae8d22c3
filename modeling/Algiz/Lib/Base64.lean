/-
  Base 64 with padding, over any alphabet.

  Three bytes are a group of 24 bits and are written as four digits of six bits each. What is
  left of fewer than three bytes is filled with zero bits on the right, and the digits that hold
  none of its bits are written as padding.
-/
import Mathlib.Algebra.Group.Nat.Defs
import Mathlib.Data.List.Basic

namespace Algiz.Lib.Base64

/-- The standard alphabet: the upper-case letters, the lower-case letters, the digits, `+`, `/`. -/
def standard (digit : Nat) : UInt8 :=
  if digit < 26 then UInt8.ofNat (65 + digit)
  else if digit < 52 then UInt8.ofNat (97 + (digit - 26))
  else if digit < 62 then UInt8.ofNat (48 + (digit - 52))
  else if digit = 62 then 43
  else 47

variable {α : Type*} (char : Nat → α) (pad : α)

/-- The first `count` of the four digits of 24 bits, and padding for the others. -/
def group (bits count : Nat) : List α :=
  ([bits / 64 ^ 3, bits / 64 ^ 2, bits / 64, bits].take count).map
    (fun digit => char (digit % 64)) ++ List.replicate (4 - count) pad

/-- Bytes in base 64. -/
def encode : List UInt8 → List α
  | [] => []
  | [a] => group char pad (a.toNat * 2 ^ 16) 2
  | [a, b] => group char pad (a.toNat * 2 ^ 16 + b.toNat * 2 ^ 8) 3
  | a :: b :: c :: rest =>
    group char pad (a.toNat * 2 ^ 16 + b.toNat * 2 ^ 8 + c.toNat) 4 ++ encode rest

variable {char}

/-- Only the characters of the 64 digits count. -/
theorem group_congr {char' : Nat → α} (h : ∀ digit < 64, char digit = char' digit)
    (bits count : Nat) : group char pad bits count = group char' pad bits count := by
  unfold group
  rw [List.map_congr_left fun digit _ => h (digit % 64) (Nat.mod_lt digit (by decide))]

theorem encode_congr {char' : Nat → α} {pad : α} (h : ∀ digit < 64, char digit = char' digit)
    (bytes : List UInt8) : encode char pad bytes = encode char' pad bytes := by
  induction bytes using encode.induct with
  | case1 => rfl
  | case2 a => exact group_congr pad h _ _
  | case3 a b => exact group_congr pad h _ _
  | case4 a b c rest ih => rw [encode, encode, group_congr pad h, ih]

end Algiz.Lib.Base64
