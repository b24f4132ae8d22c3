/-
  `Request::checkAuthentication`: the user name and the password in the `Authorization` header,
  and the base 64 it is written in.

  Both loops of `util/Base64.cpp` shift everything they have seen into one int. Between two groups
  of three bytes none of its bits is due, so each loop takes a group, or a group's four
  characters, whatever the int holds before it.
-/
import Algiz.HTTP.Request
import Algiz.Lib.Base64

namespace Algiz

open Lib

/-- `t[c]`; `none` is -1. -/
def base64Value (c : UInt8) : Option Nat := base64Chars.idxOf? c

/-- The loop of `base64Decode`. `val` is an int, of which fourteen bits count. -/
def base64DecodeLoop : Bytes → Nat → Int → Bytes
  | [], _, _ => []
  | c :: rest, val, valb =>
    match base64Value c with
    | none => []
    | some digit =>
      let val := (val * 64 + digit) % 2 ^ 32
      let valb := valb + 6
      if 0 ≤ valb then
        UInt8.ofNat (val / 2 ^ valb.toNat) :: base64DecodeLoop rest val (valb - 8)
      else base64DecodeLoop rest val valb

/-- `base64Decode` -/
def base64Decode (str : Bytes) : Bytes := base64DecodeLoop str 0 (-8)

example : base64Decode (ascii "YTpi") = ascii "a:b" := by decide

/-! ## Encoding -/

theorem base64Char_congr {m n : Nat} (h : m % 64 = n % 64) : base64Char m = base64Char n := by
  unfold base64Char
  rw [h]

/-- `CHARS` is the standard alphabet. -/
theorem base64Char_eq (n : Nat) : base64Char n = Base64.standard (n % 64) := by
  have hall : ∀ digit < 64, base64Char digit = Base64.standard digit := by decide +kernel
  have hchar : base64Char n = base64Char (n % 64) := base64Char_congr (Nat.mod_mod n 64).symm
  rw [hchar]
  exact hall _ (Nat.mod_lt n (by decide))

/-- The first byte of a group is written as one character. -/
theorem base64Loop_first (a : UInt8) (rest : Bytes) (val : Nat) :
    base64Loop (a :: rest) val (-6) =
      base64Char ((val * 256 + a.toNat) % 2 ^ 32 / 4) ::
        base64Loop rest ((val * 256 + a.toNat) % 2 ^ 32) (-4) := rfl

theorem base64Loop_second (b : UInt8) (rest : Bytes) (val : Nat) :
    base64Loop (b :: rest) val (-4) =
      base64Char ((val * 256 + b.toNat) % 2 ^ 32 / 16) ::
        base64Loop rest ((val * 256 + b.toNat) % 2 ^ 32) (-2) := rfl

/-- The third byte of a group is written as two characters, and no bit is left over. -/
theorem base64Loop_third (c : UInt8) (rest : Bytes) (val : Nat) :
    base64Loop (c :: rest) val (-2) =
      base64Char ((val * 256 + c.toNat) % 2 ^ 32 / 64) ::
        base64Char ((val * 256 + c.toNat) % 2 ^ 32 / 1) ::
          base64Loop rest ((val * 256 + c.toNat) % 2 ^ 32) (-6) := rfl

theorem base64Loop_last_first (val : Nat) :
    base64Loop [] val (-4) = [base64Char (val * 256 / 16)] := rfl

theorem base64Loop_last_second (val : Nat) :
    base64Loop [] val (-2) = [base64Char (val * 256 / 64)] := rfl

/-- A group of three bytes. -/
theorem base64Loop_group (a b c : UInt8) (rest : Bytes) (val : Nat) :
    ∃ val', base64Loop (a :: b :: c :: rest) val (-6) =
      Base64.group base64Char 61 (a.toNat * 2 ^ 16 + b.toNat * 2 ^ 8 + c.toNat) 4 ++
        base64Loop rest val' (-6) := by
  have ha := a.toNat_lt
  have hb := b.toNat_lt
  have hc := c.toNat_lt
  refine ⟨(((val * 256 + a.toNat) % 2 ^ 32 * 256 + b.toNat) % 2 ^ 32 * 256 + c.toNat) % 2 ^ 32, ?_⟩
  rw [base64Loop_first, base64Loop_second, base64Loop_third]
  simp only [Base64.group, List.take, List.map, List.replicate, List.cons_append, List.nil_append,
    Nat.sub_self, List.cons.injEq, and_true]
  refine ⟨?_, ?_, ?_, ?_⟩ <;> exact base64Char_congr (by omega)

/-- What the loop writes is the encoding but for its padding. -/
theorem base64Loop_padded (str : Bytes) (val : Nat) :
    base64Loop str val (-6) ++
        List.replicate ((4 - (base64Loop str val (-6)).length % 4) % 4) 61 =
      Base64.encode base64Char 61 str := by
  induction str using Base64.encode.induct generalizing val with
  | case1 => simp [base64Loop, Base64.encode]
  | case2 a =>
    have ha := a.toNat_lt
    rw [base64Loop_first, base64Loop_last_first]
    simp only [Base64.encode, Base64.group, List.take, List.map, List.replicate, List.length_cons,
      List.length_nil, List.cons_append, List.nil_append, List.cons.injEq, and_true]
    refine ⟨?_, ?_⟩ <;> exact base64Char_congr (by omega)
  | case3 a b =>
    have ha := a.toNat_lt
    have hb := b.toNat_lt
    rw [base64Loop_first, base64Loop_second, base64Loop_last_second]
    simp only [Base64.encode, Base64.group, List.take, List.map, List.replicate, List.length_cons,
      List.length_nil, List.cons_append, List.nil_append, List.cons.injEq, and_true]
    refine ⟨?_, ?_, ?_⟩ <;> exact base64Char_congr (by omega)
  | case4 a b c rest ih =>
    obtain ⟨val', hgroup⟩ := base64Loop_group a b c rest val
    have hlength : ((Base64.group base64Char 61
        (a.toNat * 2 ^ 16 + b.toNat * 2 ^ 8 + c.toNat) 4 ++ base64Loop rest val' (-6)).length) % 4 =
          (base64Loop rest val' (-6)).length % 4 := by
      rw [List.length_append]
      exact Nat.add_mod_left 4 _
    rw [hgroup, hlength, List.append_assoc, ih val', Base64.encode]

/-- `base64Encode` writes base 64 with padding. -/
theorem base64Encode_eq (str : Bytes) : base64Encode str = Base64.encode Base64.standard 61 str :=
  (base64Loop_padded str 0).trans (Base64.encode_congr (fun digit hdigit => by
    rw [base64Char_eq, Nat.mod_eq_of_lt hdigit]) str)

/-! ## Decoding -/

theorem base64Value_char (n : Nat) : base64Value (base64Char n) = some (n % 64) := by
  have hall : ∀ digit < 64, base64Value (base64Char digit) = some digit := by decide +kernel
  have hchar : base64Char n = base64Char (n % 64) := base64Char_congr (Nat.mod_mod n 64).symm
  rw [hchar]
  exact hall _ (Nat.mod_lt n (by decide))

/-- The padding ends the loop. -/
theorem base64DecodeLoop_pad (rest : Bytes) (val : Nat) (valb : Int) :
    base64DecodeLoop (61 :: rest) val valb = [] := by
  have hpad : base64Value 61 = none := by decide
  rw [base64DecodeLoop, hpad]

theorem base64DecodeLoop_char (n : Nat) (rest : Bytes) (val : Nat) (valb : Int) :
    base64DecodeLoop (base64Char n :: rest) val valb =
      if 0 ≤ valb + 6 then
        UInt8.ofNat ((val * 64 + n % 64) % 2 ^ 32 / 2 ^ (valb + 6).toNat) ::
          base64DecodeLoop rest ((val * 64 + n % 64) % 2 ^ 32) (valb + 6 - 8)
      else base64DecodeLoop rest ((val * 64 + n % 64) % 2 ^ 32) (valb + 6) := by
  rw [base64DecodeLoop, base64Value_char]

theorem base64DecodeLoop_first (n : Nat) (rest : Bytes) (val : Nat) :
    base64DecodeLoop (base64Char n :: rest) val (-8) =
      base64DecodeLoop rest ((val * 64 + n % 64) % 2 ^ 32) (-2) :=
  base64DecodeLoop_char n rest val (-8)

/-- With the second character of a group its first byte is complete. -/
theorem base64DecodeLoop_second (n : Nat) (rest : Bytes) (val : Nat) :
    base64DecodeLoop (base64Char n :: rest) val (-2) =
      UInt8.ofNat ((val * 64 + n % 64) % 2 ^ 32 / 16) ::
        base64DecodeLoop rest ((val * 64 + n % 64) % 2 ^ 32) (-4) :=
  base64DecodeLoop_char n rest val (-2)

theorem base64DecodeLoop_third (n : Nat) (rest : Bytes) (val : Nat) :
    base64DecodeLoop (base64Char n :: rest) val (-4) =
      UInt8.ofNat ((val * 64 + n % 64) % 2 ^ 32 / 4) ::
        base64DecodeLoop rest ((val * 64 + n % 64) % 2 ^ 32) (-6) :=
  base64DecodeLoop_char n rest val (-4)

theorem base64DecodeLoop_fourth (n : Nat) (rest : Bytes) (val : Nat) :
    base64DecodeLoop (base64Char n :: rest) val (-6) =
      UInt8.ofNat ((val * 64 + n % 64) % 2 ^ 32 / 1) ::
        base64DecodeLoop rest ((val * 64 + n % 64) % 2 ^ 32) (-8) :=
  base64DecodeLoop_char n rest val (-6)

theorem byte_eq {n : Nat} {b : UInt8} (h : n % 256 = b.toNat) : UInt8.ofNat n = b :=
  (UInt8.ofNat_eq_iff_mod_eq_toNat n b).mpr h

/-- The loop takes a group back to the bytes it was written from. -/
theorem base64DecodeLoop_encode (str : Bytes) (val : Nat) :
    base64DecodeLoop (Base64.encode base64Char 61 str) val (-8) = str := by
  induction str using Base64.encode.induct generalizing val with
  | case1 => rfl
  | case2 a =>
    have ha := a.toNat_lt
    simp only [Base64.encode, Base64.group, List.take, List.map, List.replicate, List.cons_append,
      List.nil_append]
    rw [base64DecodeLoop_first, base64DecodeLoop_second, base64DecodeLoop_pad, List.cons.injEq]
    exact ⟨byte_eq (by omega), rfl⟩
  | case3 a b =>
    have ha := a.toNat_lt
    have hb := b.toNat_lt
    simp only [Base64.encode, Base64.group, List.take, List.map, List.replicate, List.cons_append,
      List.nil_append]
    rw [base64DecodeLoop_first, base64DecodeLoop_second, base64DecodeLoop_third,
      base64DecodeLoop_pad, List.cons.injEq, List.cons.injEq]
    exact ⟨byte_eq (by omega), byte_eq (by omega), rfl⟩
  | case4 a b c rest ih =>
    have ha := a.toNat_lt
    have hb := b.toNat_lt
    have hc := c.toNat_lt
    simp only [Base64.encode, Base64.group, List.take, List.map, List.replicate, List.cons_append,
      List.nil_append, Nat.sub_self]
    rw [base64DecodeLoop_first, base64DecodeLoop_second, base64DecodeLoop_third,
      base64DecodeLoop_fourth, ih, List.cons.injEq, List.cons.injEq, List.cons.injEq]
    exact ⟨byte_eq (by omega), byte_eq (by omega), byte_eq (by omega), rfl⟩

/-- What was encoded is decoded again. -/
theorem base64Decode_encode (str : Bytes) : base64Decode (base64Encode str) = str := by
  have hpadded : base64Encode str = Base64.encode base64Char 61 str := base64Loop_padded str 0
  rw [hpadded]
  exact base64DecodeLoop_encode str 0

namespace HTTP

/-- `AuthenticationResult` -/
inductive AuthenticationResult where
  | invalid | missing | malformed | badUsername | badPassword | success
  deriving DecidableEq

/-- `Request::checkAuthentication` -/
def Request.checkAuthentication (r : Request) (username password : Bytes) : AuthenticationResult :=
  match r.headers[ascii "authorization"]? with
  | none => .missing
  | some auth =>
    if auth.take 6 ≠ ascii "Basic " then .malformed
    else
      let decoded := base64Decode (auth.drop 6)
      match find decoded 58 with
      | none => .malformed
      | some colon =>
        if decoded.take colon ≠ username then .badUsername
        else if decoded.drop (colon + 1) ≠ password then .badPassword
        else .success

/-- The check succeeds exactly when what follows `Basic` is, decoded, the user name before the
    first colon and the password behind it. -/
theorem Request.checkAuthentication_eq_success {r : Request} {username password credentials : Bytes}
    (hcolon : 58 ∉ username)
    (hauth : r.headers[ascii "authorization"]? = some (ascii "Basic " ++ credentials)) :
    r.checkAuthentication username password = .success ↔
      base64Decode credentials = username ++ 58 :: password := by
  have htake : (ascii "Basic " ++ credentials).take 6 = ascii "Basic " := rfl
  have hdrop : (ascii "Basic " ++ credentials).drop 6 = credentials := rfl
  unfold checkAuthentication
  rw [hauth]
  dsimp only
  rw [htake, if_neg (not_not_intro rfl), hdrop]
  constructor
  · intro h
    split at h
    · exact nomatch h
    · rename_i colon hfind
      split at h
      · exact nomatch h
      · rename_i hname
        split at h
        · exact nomatch h
        · rename_i hword
          rw [(find_eq_some hfind).2, not_not.mp hname, not_not.mp hword]
  · intro h
    rw [h, find_append_cons hcolon]
    dsimp only
    have hpassword : (username ++ 58 :: password).drop (username.length + 1) = password := by simp
    rw [List.take_left, if_neg (not_not_intro rfl), hpassword, if_neg (not_not_intro rfl)]

/-- `base64Encode` writes base 64 with padding and `base64Decode` reads it back, so that the
    credentials that succeed are the user name, a colon and the password. -/
theorem Request.base64_credentials (str : Bytes) :
    base64Encode str = Base64.encode Base64.standard 61 str ∧
      base64Decode (base64Encode str) = str ∧
      ∀ (r : Request) (username password : Bytes), 58 ∉ username →
        r.headers[ascii "authorization"]? = some (ascii "Basic " ++ base64Encode str) →
        (r.checkAuthentication username password = .success ↔
          str = username ++ 58 :: password) := by
  refine ⟨base64Encode_eq str, base64Decode_encode str, ?_⟩
  intro r username password hcolon hauth
  rw [checkAuthentication_eq_success hcolon hauth, base64Decode_encode]

theorem Request.base64_credentials_user :
    ({ headers := (∅ : StringMap).insert (ascii "authorization") (ascii "Basic dTpw") } :
      Request).checkAuthentication (ascii "u") (ascii "p") = .success := by
  have hencode : base64Encode (ascii "u:p") = ascii "dTpw" := by decide
  refine ((base64_credentials (ascii "u:p")).2.2 _ _ _ (by decide) ?_).mpr rfl
  rw [Std.ExtTreeMap.getElem?_insert_self, hencode]
  rfl

end HTTP

end Algiz
