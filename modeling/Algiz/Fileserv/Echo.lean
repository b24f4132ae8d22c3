/-
  What a module echoes of the text between its codes.

  The text stands in the module as the body of a string literal, byte by byte escaped. A NUL is
  written `\0` and an ESC `\x1b`, and both take digits with them that happen to follow. So the
  literal denotes the text exactly where none do (`escape_iff`). `echo` writes the literal as a C
  string, up to the first NUL.
-/
import Mathlib.Data.List.Chain
import Algiz.Fileserv.Preprocessor
import Algiz.Lib.Literal
import Algiz.Numbers

namespace Algiz.Plugins

open Lib Literal

/-- No NUL has an octal digit behind it, and no ESC a hexadecimal one. -/
def Unglued (text : Bytes) : Prop :=
  text.IsChain fun a b => (a = 0 → isOctal b = false) ∧ (a = 27 → isHex b = false)

/-- The text is what `operator<<` writes of the literal, which is a `const char *`. -/
def Echoes (text : Bytes) : Prop := ∃ out, Means (escape text) out ∧ cString out = text

/-! ## Bytes that stand for themselves -/

/-- The bytes with an escape of their own. -/
def escaped : Bytes := [9, 13, 10, 11, 8, 7, 12, 0, 92, 34, 27]

theorem escapeByte_of_notMem {b : UInt8} (h : b ∉ escaped) : escapeByte b = [b] := by
  simp only [escaped, List.mem_cons, List.not_mem_nil, not_or] at h
  simp only [escapeByte, h, if_false]

/-- A byte with an escape of its own is no digit. -/
theorem escapeByte_of_isHex {b : UInt8} (h : isHex b = true) : escapeByte b = [b] := by
  have hall : (escaped.all fun b => isHex b = false) = true := by decide
  refine escapeByte_of_notMem fun hmem => ?_
  have hnone := of_decide_eq_true (List.all_eq_true.mp hall b hmem)
  exact Bool.false_ne_true (hnone.symm.trans h)

theorem isHex_of_isOctal {b : UInt8} (h : isOctal b = true) : isHex b = true := by
  obtain ⟨hlow, hhigh⟩ := Bool.and_eq_true_iff.mp h
  have hdigit : b ≤ 57 := UInt8.le_trans (of_decide_eq_true hhigh) (by decide)
  unfold isHex
  rw [hlow, decide_eq_true hdigit]
  rfl

/-- What is written for a byte is that byte, or begins with a backslash. -/
theorem escapeByte_cases (b : UInt8) :
    escapeByte b = [b] ∨ (escapeByte b).head? = some 92 := by
  have hall : (escaped.all fun b => (escapeByte b).head? = some 92) = true := by decide
  by_cases hmem : b ∈ escaped
  · exact .inr (of_decide_eq_true (List.all_eq_true.mp hall b hmem))
  · exact .inl (escapeByte_of_notMem hmem)

/-- Most escapes are a backslash and a letter. -/
theorem escapeByte_simple {b : UInt8} (hmem : b ∈ escaped) (hnul : b ≠ 0) (hesc : b ≠ 27) :
    ∃ c, escapeByte b = [92, c] ∧ simple c = some b := by
  have hall : (escaped.all fun b => b ≠ 0 → b ≠ 27 → escapeByte b = [92, (escapeByte b).getD 1 0] ∧
      simple ((escapeByte b).getD 1 0) = some b) = true := by decide
  exact ⟨_, of_decide_eq_true (List.all_eq_true.mp hall b hmem) hnul hesc⟩

/-- Digits stand in the literal where they stand in the text. -/
theorem takeWhile_escape {p : UInt8 → Bool} (hp : ∀ b, p b = true → escapeByte b = [b])
    (hslash : p 92 = false) (text : Bytes) : (escape text).takeWhile p = text.takeWhile p := by
  induction text with
  | nil => rfl
  | cons b text ih =>
    unfold escape at ih ⊢
    rw [List.flatMap_cons]
    cases hb : p b with
    | true => rw [hp b hb, List.singleton_append, List.takeWhile_cons_of_pos hb,
        List.takeWhile_cons_of_pos hb, ih]
    | false =>
      have hneg : ¬ p b = true := by rw [hb]; exact Bool.false_ne_true
      rw [List.takeWhile_cons_of_neg hneg]
      rcases escapeByte_cases b with hself | hhead
      · rw [hself, List.singleton_append, List.takeWhile_cons_of_neg hneg]
      · obtain ⟨rest, hescape⟩ := List.head?_eq_some_iff.mp hhead
        rw [hescape, List.cons_append,
          List.takeWhile_cons_of_neg (by rw [hslash]; exact Bool.false_ne_true)]

theorem drop_escape {p : UInt8 → Bool} (hp : ∀ b, p b = true → escapeByte b = [b])
    {k : Nat} {text : Bytes} (hk : k ≤ (text.takeWhile p).length) :
    (escape text).drop k = escape (text.drop k) := by
  induction k generalizing text with
  | zero => rfl
  | succ k ih =>
    cases text with
    | nil => rfl
    | cons b text =>
      cases hb : p b with
      | true =>
        rw [List.takeWhile_cons_of_pos hb, List.length_cons] at hk
        have hrest := ih (Nat.le_of_succ_le_succ hk)
        unfold escape at hrest ⊢
        rw [List.flatMap_cons, hp b hb, List.singleton_append, List.drop_succ_cons,
          List.drop_succ_cons, hrest]
      | false =>
        rw [List.takeWhile_cons_of_neg (by rw [hb]; exact Bool.false_ne_true)] at hk
        exact absurd hk (Nat.not_succ_le_zero k)

theorem escape_cons_ne_nil (a : UInt8) (text : Bytes) : escape (a :: text) ≠ [] := by
  have hcode : escapeByte a ≠ [] := by
    rcases escapeByte_cases a with hself | hhead
    · rw [hself]
      exact List.cons_ne_nil _ _
    · intro hnil
      rw [hnil] at hhead
      cases hhead
  exact List.append_ne_nil_of_left_ne_nil hcode (escape text)

/-! ## What is read of an escaped text -/

/-- Bytes other than NUL and ESC are read back whatever follows. -/
theorem readItem_escapeByte {b : UInt8} (hnul : b ≠ 0) (hesc : b ≠ 27) (rest : Bytes) :
    readItem (escapeByte b ++ rest) = some (b, rest) := by
  by_cases hmem : b ∈ escaped
  · obtain ⟨c, hcode, hsimple⟩ := escapeByte_simple hmem hnul hesc
    rw [hcode]
    exact readItem_simple hsimple rest
  · rw [escapeByte_of_notMem hmem]
    simp only [escaped, List.mem_cons, List.not_mem_nil, not_or] at hmem
    exact readItem_plain (by simp [hmem]) (by simp [hmem]) (by simp [hmem]) rest

theorem takeWhile_eq_nil_iff_head {p : UInt8 → Bool} {text : Bytes} :
    text.takeWhile p = [] ↔ text.head?.any p = false := by
  cases text with
  | nil => exact iff_of_true rfl rfl
  | cons b text =>
    rw [List.takeWhile_cons]
    cases hb : p b with
    | true => simp [hb]
    | false => simp [hb]

/-- What becomes of a NUL: it takes `k` bytes of the text with it. -/
theorem readItem_escape_nul (text : Bytes) : ∃ k ≤ text.length, ∃ b,
    readItem (escape (0 :: text)) = some (b, escape (text.drop k)) ∧
      (k = 0 → b = 0) ∧ (k = 0 ↔ text.head?.any isOctal = false) := by
  have hp : ∀ b, isOctal b = true → escapeByte b = [b] :=
    fun b hb => escapeByte_of_isHex (isHex_of_isOctal hb)
  have hdigits := takeWhile_escape hp (by decide) text
  have hread := readItem_zero (escape text)
  rw [hdigits, drop_escape hp (List.length_take_le' 2 _)] at hread
  refine ⟨_, Nat.le_trans (List.length_take_le' 2 _) (List.takeWhile_prefix _).length_le, _,
    hread, ?_, ?_⟩
  · intro hnone
    rw [List.length_eq_zero_iff.mp hnone]
    rfl
  · rw [List.length_eq_zero_iff, List.take_eq_nil_iff, ← takeWhile_eq_nil_iff_head]
    exact or_iff_right (by decide)

/-- The byte takes nothing of what follows with it. -/
def Apart (a : UInt8) (text : Bytes) : Prop :=
  (a = 0 → text.head?.any isOctal = false) ∧ (a = 27 → text.head?.any isHex = false)

theorem unglued_cons {a : UInt8} {text : Bytes} :
    Unglued (a :: text) ↔ Apart a text ∧ Unglued text := by
  unfold Unglued Apart
  rw [List.isChain_cons]
  refine and_congr_left fun _ => ?_
  cases text with
  | nil => simp
  | cons b text => simp

/-- The first byte takes `k` bytes with it, and it is that byte if there are none; or nothing can
    be read. -/
theorem readItem_escape_cons (a : UInt8) (text : Bytes) :
    (∃ k ≤ text.length, ∃ b, readItem (escape (a :: text)) = some (b, escape (text.drop k)) ∧
      (k = 0 → b = a) ∧ (k = 0 ↔ Apart a text)) ∨
    (readItem (escape (a :: text)) = none ∧ ¬ Apart a text) := by
  unfold Apart
  by_cases hnul : a = 0
  · subst hnul
    obtain ⟨k, hk, b, hread, hself, hnone⟩ := readItem_escape_nul text
    refine Or.inl ⟨k, hk, b, hread, hself, ?_⟩
    rw [hnone]
    exact ⟨fun h => ⟨fun _ => h, fun h27 => absurd h27 (by decide)⟩, fun h => h.1 rfl⟩
  · by_cases hesc : a = 27
    · subst hesc
      have hread := readItem_escape (escape text)
      rw [takeWhile_escape (fun b hb => escapeByte_of_isHex hb) (by decide)] at hread
      by_cases hnone : text.takeWhile isHex = []
      · rw [if_pos hnone] at hread
        have hapart := takeWhile_eq_nil_iff_head.mp hnone
        refine Or.inl ⟨0, Nat.zero_le _, 27, hread, fun _ => rfl, iff_of_true rfl ?_⟩
        exact ⟨fun h0 => absurd h0 (by decide), fun _ => hapart⟩
      · rw [if_neg hnone] at hread
        exact Or.inr ⟨hread, fun h => hnone (takeWhile_eq_nil_iff_head.mpr (h.2 rfl))⟩
    · refine Or.inl ⟨0, Nat.zero_le _, a, readItem_escapeByte hnul hesc (escape text),
        fun _ => rfl, iff_of_true rfl ?_⟩
      exact ⟨fun h0 => absurd h0 hnul, fun h27 => absurd h27 hesc⟩

/-- No literal denotes more bytes than were written. -/
theorem length_le_of_means {text out : Bytes} (h : Means (escape text) out) :
    out.length ≤ text.length := by
  induction hn : text.length using Nat.strongRecOn generalizing text out with
  | ind n ih =>
    cases text with
    | nil =>
      cases h with
      | nil => exact Nat.zero_le _
      | item hitem _ => cases hitem
    | cons a text =>
      rcases readItem_escape_cons a text with ⟨k, hk, b, hread, -⟩ | ⟨hread, -⟩
      · obtain ⟨out', rfl, hrest⟩ := (means_iff_of_readItem hread).mp h
        rw [List.length_cons] at hn
        have hlen := ih (text.drop k).length (by rw [List.length_drop]; omega) hrest rfl
        rw [List.length_drop] at hlen
        rw [List.length_cons]
        omega
      · exact absurd h (not_means_of_readItem (escape_cons_ne_nil a text) hread out)

/-- The literal denotes the text exactly where no NUL and no ESC takes a digit with it. -/
theorem means_escape_iff (text : Bytes) : Means (escape text) text ↔ Unglued text := by
  induction text with
  | nil => exact iff_of_true Means.nil List.IsChain.nil
  | cons a text ih =>
    rw [unglued_cons]
    rcases readItem_escape_cons a text with ⟨k, hk, b, hread, hself, hapart⟩ | ⟨hread, hglued⟩
    · rw [means_iff_of_readItem hread, ← hapart]
      constructor
      · rintro ⟨out, heq, hrest⟩
        obtain ⟨rfl, rfl⟩ := List.cons.inj heq
        have hlen := length_le_of_means hrest
        rw [List.length_drop] at hlen
        obtain rfl : k = 0 := by omega
        exact ⟨rfl, ih.mp hrest⟩
      · rintro ⟨rfl, hrest⟩
        rw [hself rfl]
        exact ⟨text, rfl, ih.mpr hrest⟩
    · refine iff_of_false ?_ fun h => hglued h.1
      exact not_means_of_readItem (escape_cons_ne_nil a text) hread _

theorem notMem_cString (str : Bytes) : 0 ∉ cString str := by
  intro hin
  exact absurd (List.mem_takeWhile_imp hin) (by decide)

theorem cString_of_notMem {str : Bytes} (h : 0 ∉ str) : cString str = str := by
  unfold cString
  rw [List.takeWhile_eq_self_iff]
  intro b hb
  exact bne_iff_ne.mpr fun hzero => h (hzero ▸ hb)

/-- The literal denotes the text exactly where no NUL and no ESC takes a digit with it, and the
    text is reproduced if besides there is no NUL in it. -/
theorem escape_iff (text : Bytes) :
    (Means (escape text) text ↔ Unglued text) ∧ (Echoes text ↔ Unglued text ∧ 0 ∉ text) := by
  refine ⟨means_escape_iff text, ?_, ?_⟩
  · rintro ⟨out, hmeans, hout⟩
    have hnone : 0 ∉ text := hout ▸ notMem_cString out
    have hprefix : text <+: out := hout ▸ List.takeWhile_prefix _
    have hlen := length_le_of_means hmeans
    obtain rfl := hprefix.eq_of_length_le hlen
    exact ⟨(means_escape_iff text).mp hmeans, hnone⟩
  · rintro ⟨hunglued, hnone⟩
    exact ⟨text, (means_escape_iff text).mpr hunglued, cString_of_notMem hnone⟩

/-- A NUL and a `1` become one byte. -/
theorem escape_nul_digit : ¬ ∀ text : Bytes, Means (escape text) text := by
  intro h
  have hunglued := (means_escape_iff [0, 49]).mp (h _)
  unfold Unglued at hunglued
  exact absurd hunglued (by decide)

end Algiz.Plugins
