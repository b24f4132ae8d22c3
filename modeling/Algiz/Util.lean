/-
  The string functions of `util/Util.cpp` and `util/Base64.cpp` that requests and responses use.

  Two of them can read what no byte of their argument says: `parseUlong` returns an uninitialized
  number when `std::from_chars` reports that the number is out of range, and `unescape` reads past
  the end of a view of fewer than three bytes (`size - 3` wraps around). `Indeterminate` stands
  for what is found there.
-/
import Mathlib.Algebra.Group.Nat.Defs
import Mathlib.Data.List.TakeWhile
import Algiz.Lib.Lines
import Algiz.Net.Connection

namespace Algiz

/-- What is read where nothing was written. -/
structure Indeterminate where
  /-- `unsigned long out;` in `parseUlong`, for this view -/
  number : Bytes → Nat := fun _ => 0
  /-- the byte that many places behind the end of the view -/
  beyond : Bytes → Nat → UInt8 := fun _ _ => 0

/-- `view.find(needle)`; `none` is `npos`. -/
def findString (needle : Bytes) : Bytes → Option Nat
  | [] => if needle.isEmpty then some 0 else none
  | b :: view =>
    if needle.isPrefixOf (b :: view) then some 0 else (findString needle view).map (· + 1)

/-- The pieces of a string between the delimiters. -/
def pieces (delimiter : Bytes) : Nat → Bytes → List Bytes
  | 0, str => [str]
  | fuel + 1, str =>
    match findString delimiter str with
    | none => [str]
    | some next => str.take next :: pieces delimiter fuel (str.drop (next + delimiter.length))

/-- `split`. The first piece is there even if it is empty. -/
def split (str delimiter : Bytes) (condense : Bool) : List Bytes :=
  if str.isEmpty then []
  else match pieces delimiter str.length str with
    | [] => []
    | first :: rest => first :: rest.filter fun piece => !piece.isEmpty || !condense

theorem pieces_ne_nil (delimiter : Bytes) (n : Nat) (str : Bytes) :
    pieces delimiter n str ≠ [] := by
  cases n with
  | zero => exact List.cons_ne_nil _ _
  | succ n =>
    unfold pieces
    split <;> exact List.cons_ne_nil _ _

theorem split_eq_nil {str delimiter : Bytes} {condense : Bool} :
    split str delimiter condense = [] ↔ str = [] := by
  unfold split
  split
  · rename_i hempty
    exact iff_of_true rfl (List.isEmpty_iff.mp hempty)
  · rename_i hsome
    refine iff_of_false ?_ fun hempty => hsome (List.isEmpty_iff.mpr hempty)
    split
    · rename_i hnone
      exact absurd hnone (pieces_ne_nil _ _ _)
    · exact List.cons_ne_nil _ _

theorem findString_singleton_of_not_mem {b : UInt8} {view : Bytes} (h : b ∉ view) :
    findString [b] view = none := by
  induction view with
  | nil => rfl
  | cons c view ih =>
    rw [List.mem_cons, not_or] at h
    have hnot : [b].isPrefixOf (c :: view) = false := by simp [List.isPrefixOf, h.1]
    rw [findString, hnot, if_neg Bool.false_ne_true, ih h.2]
    rfl

theorem findString_singleton {b : UInt8} {front : Bytes} (h : b ∉ front) (rest : Bytes) :
    findString [b] (front ++ b :: rest) = some front.length := by
  induction front with
  | nil => simp [findString, List.isPrefixOf]
  | cons c front ih =>
    rw [List.mem_cons, not_or] at h
    have hnot : [b].isPrefixOf (c :: (front ++ b :: rest)) = false := by
      simp [List.isPrefixOf, h.1]
    rw [List.cons_append, findString, hnot, if_neg Bool.false_ne_true, ih h.2]
    rfl

/-- With a delimiter of one byte the pieces are the fields of the string. -/
theorem pieces_singleton (b : UInt8) {n : Nat} {str : Bytes} (h : str.length ≤ n) :
    pieces [b] n str = Lib.fields b str := by
  induction n generalizing str with
  | zero =>
    obtain rfl := List.length_eq_zero_iff.mp (Nat.le_zero.mp h)
    rfl
  | succ n ih =>
    rw [pieces]
    rcases Lib.eq_line_append b str with hnone | ⟨front, rest, hfront, rfl⟩
    · rw [findString_singleton_of_not_mem hnone, Lib.fields_of_not_mem b hnone]
    · have hrest : rest.length ≤ n := by
        rw [List.length_append, List.length_cons] at h
        omega
      rw [findString_singleton hfront, Lib.fields_line b hfront, ← ih hrest]
      dsimp only
      rw [List.take_left, List.drop_length_add_append]
      rfl

/-- Is it one of `0` to `9`? -/
def isDigit (b : UInt8) : Bool := 48 ≤ b && b ≤ 57

/-- The number that these digits write. -/
def decimal (digits : Bytes) : Nat := digits.foldl (fun n d => 10 * n + (d.toNat - 48)) 0

/-- `parseUlong(std::string_view)` with base 10. -/
def parseUlong (ind : Indeterminate) (view : Bytes) : Except Exception Nat :=
  let digits := view.takeWhile isDigit
  if digits.isEmpty then
    .error (.invalidArgument (ascii "Not an integer: \"" ++ view ++ ascii "\""))
  else if decimal digits < 2 ^ 64 then .ok (decimal digits)
  else .ok (ind.number view)

/-- A view that is a number is read as that number. -/
theorem parseUlong_digits (ind : Indeterminate) {view : Bytes} (hne : view ≠ [])
    (hdigits : ∀ b ∈ view, isDigit b = true) (hsize : decimal view < 2 ^ 64) :
    parseUlong ind view = .ok (decimal view) := by
  have hall : view.takeWhile isDigit = view := List.takeWhile_eq_self_iff.mpr hdigits
  have hsome : view.isEmpty = false := by rwa [List.isEmpty_eq_false_iff]
  unfold parseUlong
  rw [hall]
  dsimp only
  rw [hsome, if_neg Bool.noConfusion, if_pos hsize]

def toLowerByte (b : UInt8) : UInt8 := if 65 ≤ b && b ≤ 90 then b + 32 else b

def toLower (view : Bytes) : Bytes := view.map toLowerByte

/-- `std::isxdigit`, and the digit's value. -/
def hexDigit (b : UInt8) : Option UInt8 :=
  if 97 ≤ b && b ≤ 102 then some (b - 97 + 10)
  else if 65 ≤ b && b ≤ 70 then some (b - 65 + 10)
  else if 48 ≤ b && b ≤ 57 then some (b - 48)
  else none

/-- The byte `i` places into the view, or behind its end. -/
def peek (ind : Indeterminate) (path : Bytes) (i : Nat) : UInt8 :=
  match path[i]? with
  | some b => b
  | none => ind.beyond path (i - path.length)

/-- The loop of `unescape` from index `i` on. -/
def unescapeFrom (ind : Indeterminate) (plusToSpace : Bool) (path : Bytes) : Nat → Nat → Bytes
  | 0, _ => []
  | fuel + 1, i =>
    match path[i]? with
    | none => []
    | some ch =>
      if plusToSpace && ch == 43 then 32 :: unescapeFrom ind plusToSpace path fuel (i + 1)
      -- `size - 3` is unsigned: with fewer than three bytes nothing is greater than it
      else if ch != 37 || (3 ≤ path.length && path.length - 3 < i) then
        ch :: unescapeFrom ind plusToSpace path fuel (i + 1)
      else match hexDigit (peek ind path (i + 1)), hexDigit (peek ind path (i + 2)) with
        | some next, some after =>
          (next * 16 + after) :: unescapeFrom ind plusToSpace path fuel (i + 3)
        | _, _ => ch :: unescapeFrom ind plusToSpace path fuel (i + 1)

/-- `unescape` -/
def unescape (ind : Indeterminate) (path : Bytes) (plusToSpace : Bool) : Bytes :=
  if !path.contains 37 && !(plusToSpace && path.contains 43) then path
  else unescapeFrom ind plusToSpace path path.length 0

/-- The 64 characters of base 64. -/
def base64Chars : Bytes :=
  ascii "ABCDEFGHIJKLMNOPQRSTUVWXYZabcdefghijklmnopqrstuvwxyz0123456789+/"

/-- `CHARS[n & 0x3f]` -/
def base64Char (n : Nat) : UInt8 := base64Chars.getD (n % 64) 0

/-- `while (0 <= valb)`: what it writes, and `valb` after it. Eight bits are two characters at
    most. -/
def base64Emit (val : Nat) : Nat → Int → Bytes × Int
  | 0, valb => ([], valb)
  | fuel + 1, valb =>
    if 0 ≤ valb then
      let (out, valb') := base64Emit val fuel (valb - 6)
      (base64Char (val / 2 ^ valb.toNat) :: out, valb')
    else ([], valb)

/-- The loop of `base64Encode`, and the last character. `val` is an int, of which twelve bits
    count. -/
def base64Loop : Bytes → Nat → Int → Bytes
  | [], val, valb =>
    if -6 < valb then [base64Char (val * 256 / 2 ^ (valb + 8).toNat)] else []
  | c :: rest, val, valb =>
    let val := (val * 256 + c.toNat) % 2 ^ 32
    let (out, valb') := base64Emit val 2 (valb + 8)
    out ++ base64Loop rest val valb'

/-- `base64Encode`: padded to a multiple of four. -/
def base64Encode (str : Bytes) : Bytes :=
  let out := base64Loop str 0 (-6)
  out ++ List.replicate ((4 - out.length % 4) % 4) 61

/-- The decimal text of a number. -/
def decimalText (n : Int) : Bytes := ascii (toString n)

/-- The text of a number is made of digits. -/
theorem decimalText_digits (n : Nat) : ∀ b ∈ decimalText n, isDigit b = true := by
  have htext : (toString (n : Int)).toList = Nat.toDigits 10 n := Nat.toList_repr
  unfold decimalText ascii
  rw [htext]
  intro b hb
  obtain ⟨c, hc, rfl⟩ := List.mem_map.mp hb
  have hdigit := Nat.isDigit_of_mem_toDigits (by decide) (by decide) hc
  unfold Char.isDigit at hdigit
  simp only [Bool.and_eq_true, decide_eq_true_eq] at hdigit
  obtain ⟨hlow, hhigh⟩ := hdigit
  have hlow : 48 ≤ c.toNat := hlow
  have hhigh : c.toNat ≤ 57 := hhigh
  have hbyte : (UInt8.ofNat c.toNat).toNat = c.toNat :=
    UInt8.toNat_ofNat_of_lt' (by show c.toNat < 256; omega)
  unfold isDigit
  rw [Bool.and_eq_true_iff, decide_eq_true_iff, decide_eq_true_iff, UInt8.le_iff_toNat_le,
    UInt8.le_iff_toNat_le, hbyte]
  exact ⟨hlow, hhigh⟩

theorem decimalText_ne_nil (n : Nat) : decimalText n ≠ [] := by
  have htext : (toString (n : Int)).toList = Nat.toDigits 10 n := Nat.toList_repr
  unfold decimalText ascii
  rw [htext]
  exact fun hnil => Nat.toDigits_ne_nil (List.map_eq_nil_iff.mp hnil)

/-- The digits of a number are read back as the number. -/
theorem decimal_decimalText (n : Nat) : decimal (decimalText n) = n := by
  have htext : (toString (n : Int)).toList = Nat.toDigits 10 n := Nat.toList_repr
  have hvalue : Nat.ofDigitChars 10 (Nat.toDigits 10 n) 0 = n := Nat.ofDigitChars_ten_toDigits
  have hfold : ∀ digits : List Char, (∀ c ∈ digits, c.isDigit = true) → ∀ k,
      (digits.map fun c => UInt8.ofNat c.toNat).foldl (fun n d => 10 * n + (d.toNat - 48)) k =
        Nat.ofDigitChars 10 digits k := by
    intro digits
    induction digits with
    | nil => exact fun _ _ => rfl
    | cons c digits ih =>
      intro hdigits k
      have hdigit := hdigits c List.mem_cons_self
      unfold Char.isDigit at hdigit
      simp only [Bool.and_eq_true, decide_eq_true_eq] at hdigit
      have hhigh : c.toNat ≤ 57 := hdigit.2
      have hbyte : (UInt8.ofNat c.toNat).toNat = c.toNat :=
        UInt8.toNat_ofNat_of_lt' (by show c.toNat < 256; omega)
      rw [List.map_cons, List.foldl_cons, hbyte, Nat.ofDigitChars_cons]
      exact ih (fun d hd => hdigits d (List.mem_cons_of_mem _ hd)) _
  unfold decimal decimalText ascii
  rw [htext, hfold _ fun c hc => Nat.isDigit_of_mem_toDigits (by decide) (by decide) hc, hvalue]

theorem decimalText_injective {m n : Nat} (h : decimalText m = decimalText n) : m = n := by
  rw [← decimal_decimalText m, h, decimal_decimalText]

/-! ## Finding a separator -/

/-- Two different bytes are found behind what does not hold them in a row. -/
theorem findString_pair {a b : UInt8} (hab : a ≠ b) {front : Bytes} (h : ¬ [a, b] <:+: front)
    (rest : Bytes) : findString [a, b] (front ++ a :: b :: rest) = some front.length := by
  induction front with
  | nil => simp [findString, List.isPrefixOf]
  | cons c front ih =>
    have hrest : ¬ [a, b] <:+: front := fun hin => h (List.infix_cons hin)
    have hnot : [a, b].isPrefixOf (c :: (front ++ a :: b :: rest)) = false := by
      rw [Bool.eq_false_iff, ne_eq, List.isPrefixOf_iff_prefix, List.cons_prefix_cons]
      rintro ⟨rfl, hnext⟩
      cases front with
      | nil =>
        rw [List.nil_append, List.cons_prefix_cons] at hnext
        exact hab hnext.1.symm
      | cons d front =>
        rw [List.cons_append, List.cons_prefix_cons] at hnext
        exact h ⟨[], front, by rw [hnext.1]; rfl⟩
    rw [List.cons_append, findString, if_neg (by rw [hnot]; decide), ih hrest]
    rfl

theorem findString_pair_of_not_mem {a b : UInt8} (hab : a ≠ b) {front : Bytes} (h : a ∉ front)
    (rest : Bytes) : findString [a, b] (front ++ a :: b :: rest) = some front.length :=
  findString_pair hab (fun hin => h (hin.subset List.mem_cons_self)) rest

/-! ## Hexadecimal digits -/

/-- `get_char` in `hexString` -/
def hexChar (nybble : UInt8) : UInt8 := if nybble < 10 then 48 + nybble else 97 + (nybble - 10)

/-- `hexString` -/
def hexString (string : Bytes) : Bytes :=
  string.flatMap fun byte : UInt8 => [hexChar (byte >>> 4), hexChar (byte &&& 0xf)]

theorem hexString_length (string : Bytes) : (hexString string).length = 2 * string.length := by
  induction string with
  | nil => rfl
  | cons byte string ih =>
    unfold hexString at ih ⊢
    rw [List.flatMap_cons, List.length_append, ih]
    simp only [List.length_cons, List.length_nil]
    omega

/-- What is written for a byte are digits. -/
theorem hexChar_ne_zero (byte : UInt8) :
    hexChar (byte >>> 4) ≠ 0 ∧ hexChar (byte &&& 0xf) ≠ 0 := by
  have hall : ∀ n < 256, hexChar (UInt8.ofNat n >>> 4) ≠ 0 ∧
      hexChar (UInt8.ofNat n &&& 0xf) ≠ 0 := by decide +kernel
  have hbyte := hall byte.toNat byte.toNat_lt
  rwa [UInt8.ofNat_toNat] at hbyte

theorem zero_notMem_hexString (string : Bytes) : 0 ∉ hexString string := by
  unfold hexString
  rw [List.mem_flatMap]
  rintro ⟨byte, -, hmem⟩
  obtain ⟨hhigh, hlow⟩ := hexChar_ne_zero byte
  rcases List.mem_cons.mp hmem with heq | hmem
  · exact hhigh heq.symm
  · exact hlow (List.mem_singleton.mp hmem).symm

end Algiz
