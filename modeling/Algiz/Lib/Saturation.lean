/-
  Signed machine integers with `2 * M` values, from `-M` to `M - 1`.

  `clamp M n` is the nearest value to `n`. Arithmetic on clamped operands gives the exact value of
  the unclamped ones, without an overflow, in few cases beyond those where everything is in range:
  see `clamp_add_iff`, `clamp_sub_iff`, `clamp_mul_iff` and `clamp_tdiv_iff`.
-/
import Mathlib.Algebra.Order.Ring.Int
import Mathlib.Algebra.GroupWithZero.Nat
import Mathlib.Order.Lattice

namespace Algiz.Lib

/-- The number is in range. -/
def Fits (M n : Int) : Prop := -M ≤ n ∧ n < M

instance (M n : Int) : Decidable (Fits M n) := by
  unfold Fits
  infer_instance

/-- The nearest number in range. -/
def clamp (M n : Int) : Int := if n < -M then -M else if M ≤ n then M - 1 else n

variable {M a b : Int}

theorem clamp_of_fits (h : Fits M a) : clamp M a = a := by
  unfold Fits at h
  unfold clamp
  rw [if_neg (by omega), if_neg (by omega)]

theorem fits_clamp (hM : 0 < M) (n : Int) : Fits M (clamp M n) := by
  unfold Fits clamp
  split_ifs <;> omega

theorem clamp_eq_zero_iff (hM : 1 < M) : clamp M a = 0 ↔ a = 0 := by
  unfold clamp
  split_ifs <;> omega

theorem natAbs_clamp_le (hM : 0 < M) (n : Int) : (clamp M n).natAbs ≤ n.natAbs := by
  unfold clamp
  split_ifs <;> omega

/-- What is out of range comes nearer to zero. -/
theorem natAbs_clamp_lt (hM : 0 < M) (h : ¬ Fits M a) : (clamp M a).natAbs < a.natAbs := by
  unfold Fits at h
  unfold clamp
  split_ifs <;> omega

theorem sign_clamp (hM : 1 < M) (n : Int) : (clamp M n).sign = n.sign := by
  unfold clamp
  split_ifs with hlow hhigh
  · rw [Int.sign_eq_neg_one_of_neg (by omega), Int.sign_eq_neg_one_of_neg (by omega)]
  · rw [Int.sign_eq_one_of_pos (by omega), Int.sign_eq_one_of_pos (by omega)]
  · rfl

/-- The operands are in range with their sum, or out of range on both sides, equally far. -/
theorem clamp_add_iff (hM : 1 < M) :
    Fits M (clamp M a + clamp M b) ∧ clamp M a + clamp M b = a + b ↔
      (Fits M a ∧ Fits M b ∧ Fits M (a + b)) ∨ (¬ Fits M a ∧ ¬ Fits M b ∧ a + b = -1) := by
  unfold Fits clamp
  split_ifs <;> omega

/-- The operands are in range with their difference, or the same. -/
theorem clamp_sub_iff (hM : 1 < M) :
    Fits M (clamp M a - clamp M b) ∧ clamp M a - clamp M b = a - b ↔
      (Fits M a ∧ Fits M b ∧ Fits M (a - b)) ∨ a = b := by
  unfold Fits clamp
  split_ifs <;> omega

/-- A product is lowered where an operand is clamped and the other is not zero. -/
theorem natAbs_clamp_mul_lt (hM : 0 < M) (ha : ¬ Fits M a) (hb : b ≠ 0) :
    (clamp M a * clamp M b).natAbs < (a * b).natAbs := by
  rw [Int.natAbs_mul, Int.natAbs_mul]
  calc (clamp M a).natAbs * (clamp M b).natAbs
      ≤ (clamp M a).natAbs * b.natAbs := Nat.mul_le_mul_left _ (natAbs_clamp_le hM b)
    _ < a.natAbs * b.natAbs :=
        Nat.mul_lt_mul_of_pos_right (natAbs_clamp_lt hM ha) (Int.natAbs_pos.mpr hb)

/-- The operands are in range with their product, or one of them is zero. -/
theorem clamp_mul_iff (hM : 1 < M) :
    Fits M (clamp M a * clamp M b) ∧ clamp M a * clamp M b = a * b ↔
      (Fits M a ∧ Fits M b ∧ Fits M (a * b)) ∨ a = 0 ∨ b = 0 := by
  have hpos : 0 < M := by omega
  have hzero : Fits M 0 := by
    unfold Fits
    omega
  constructor
  · rintro ⟨hfits, heq⟩
    by_cases hnone : a = 0 ∨ b = 0
    · exact Or.inr hnone
    · rw [not_or] at hnone
      refine Or.inl ⟨?_, ?_, heq ▸ hfits⟩
      · by_contra ha
        have hlt := natAbs_clamp_mul_lt hpos ha hnone.2
        rw [heq] at hlt
        exact Nat.lt_irrefl _ hlt
      · by_contra hb
        have hlt := natAbs_clamp_mul_lt hpos hb hnone.1
        rw [Int.mul_comm, heq, Int.mul_comm a] at hlt
        exact Nat.lt_irrefl _ hlt
  · rintro (⟨ha, hb, hab⟩ | rfl | rfl)
    · rw [clamp_of_fits ha, clamp_of_fits hb]
      exact ⟨hab, rfl⟩
    · rw [clamp_of_fits hzero, Int.zero_mul, Int.zero_mul]
      exact ⟨hzero, rfl⟩
    · rw [clamp_of_fits hzero, Int.mul_zero, Int.mul_zero]
      exact ⟨hzero, rfl⟩

/-- A quotient of numbers in range is in range, but for one. -/
theorem fits_tdiv_iff (ha : Fits M a) (hb : b ≠ 0) :
    Fits M (a.tdiv b) ↔ ¬ (a = -M ∧ b = -1) := by
  unfold Fits at *
  have habs := Int.natAbs_tdiv a b
  by_cases hminus : b = -1
  · subst hminus
    rw [Int.tdiv_neg, Int.tdiv_one]
    omega
  · by_cases hone : b = 1
    · subst hone
      rw [Int.tdiv_one]
      omega
    · -- the divisor is two or more, so that the quotient is half as large
      have hhalf : (a.tdiv b).natAbs ≤ a.natAbs / 2 := by
        rw [habs]
        exact Nat.div_le_div_left (by omega) (by decide)
      omega

/-- A truncated quotient, by the signs and the sizes of the numbers. -/
theorem tdiv_eq_sign_mul (a b : Int) :
    a.tdiv b = a.sign * b.sign * (a.natAbs / b.natAbs : Nat) := by
  have hsize : (a.tdiv b).natAbs = a.natAbs / b.natAbs := Int.natAbs_tdiv a b
  rw [← Int.sign_mul_natAbs (a.tdiv b), hsize, Int.sign_tdiv]
  split
  · rename_i hlt
    rw [Nat.div_eq_of_lt hlt, Int.natCast_zero, Int.mul_zero, Int.mul_zero]
  · rfl

/-- The quotient of clamped numbers is a matter of their sizes. -/
theorem clamp_tdiv_eq_iff (hM : 1 < M) :
    (clamp M a).tdiv (clamp M b) = a.tdiv b ↔
      (clamp M a).natAbs / (clamp M b).natAbs = a.natAbs / b.natAbs := by
  constructor
  · intro heq
    have hsize := congrArg Int.natAbs heq
    rw [Int.natAbs_tdiv, Int.natAbs_tdiv] at hsize
    exact hsize
  · intro hsize
    rw [tdiv_eq_sign_mul, tdiv_eq_sign_mul a, sign_clamp hM, sign_clamp hM, hsize]

/-- Two numbers have the same quotient if no multiple of the divisor lies between them. -/
theorem div_eq_div_iff_no_multiple {d m n : Nat} (hd : 0 < d) (hle : m ≤ n) :
    m / d = n / d ↔ ∀ k, d ∣ k → m < k → n < k := by
  constructor
  · rintro heq k ⟨q, rfl⟩ hlt
    rw [Nat.mul_comm, ← Nat.div_lt_iff_lt_mul hd] at hlt ⊢
    rwa [← heq]
  · intro h
    refine Nat.le_antisymm (Nat.div_le_div_right hle) ?_
    by_contra hlt
    rw [Nat.not_le, Nat.div_lt_iff_lt_mul hd] at hlt
    have hover := h _ ⟨n / d, Nat.mul_comm ..⟩ hlt
    exact absurd (Nat.div_mul_le_self n d) (by omega)

/-- Where a quotient is zero or one, another one is the same only if it is as small. -/
theorem div_eq_div_iff_of_lt_two_mul {m d n e : Nat} (hd : 0 < d) (he : 0 < e)
    (hm : m < 2 * d) : m / d = n / e ↔ m < d ∧ n < e ∨ d ≤ m ∧ e ≤ n ∧ n < 2 * e := by
  by_cases hlt : m < d
  · rw [Nat.div_eq_of_lt hlt, eq_comm, Nat.div_eq_zero_iff_lt he]
    omega
  · have hone : m / d = 1 := (Nat.div_eq_iff hd).mpr (by omega)
    rw [hone, eq_comm, Nat.div_eq_iff he]
    omega

/-- With a divisor in range: no multiple of it lies out of range up to the dividend. -/
theorem clamp_tdiv_iff_of_fits (hM : 1 < M) (hb : b ≠ 0) (hfits : Fits M b) :
    (clamp M a).tdiv (clamp M b) = a.tdiv b ↔
      ∀ m, b ∣ m → (M ≤ m → a < m) ∧ (m < -M → m < a) := by
  have hpos : 0 < b.natAbs := Int.natAbs_pos.mpr hb
  rw [clamp_tdiv_eq_iff hM, clamp_of_fits hfits,
    div_eq_div_iff_no_multiple hpos (natAbs_clamp_le (by omega) a)]
  constructor
  · intro h m hm
    have hsize := h m.natAbs (Int.natAbs_dvd_natAbs.mpr hm)
    unfold clamp at hsize
    split_ifs at hsize <;> omega
  · intro h k hk hlt
    have hup := (h k (Int.ofNat_dvd_right.mpr hk)).1
    have hdown := (h (-k) (Int.dvd_neg.mpr (Int.ofNat_dvd_right.mpr hk))).2
    unfold clamp at hlt
    split_ifs at hlt <;> omega

/-- With a divisor above the range. -/
theorem clamp_tdiv_iff_of_le (hM : 2 < M) (habove : M ≤ b) :
    (clamp M a).tdiv (clamp M b) = a.tdiv b ↔
      a.natAbs < M - 1 ∨ b ≤ a.natAbs ∧ a.natAbs < 2 * b := by
  have hclamp : clamp M b = M - 1 := by
    unfold clamp
    rw [if_neg (by omega), if_pos habove]
  have hsmall : (clamp M a).natAbs < 2 * (M - 1).natAbs := by
    unfold clamp
    split_ifs <;> omega
  rw [clamp_tdiv_eq_iff (by omega), hclamp,
    div_eq_div_iff_of_lt_two_mul (by omega) (by omega) hsmall]
  unfold clamp
  split_ifs <;> omega

/-- With a divisor below the range. -/
theorem clamp_tdiv_iff_of_lt (hM : 2 < M) (hbelow : b < -M) :
    (clamp M a).tdiv (clamp M b) = a.tdiv b ↔
      -M < a ∧ a < -b ∨ 2 * b < a ∧ a ≤ b := by
  have hclamp : clamp M b = -M := by
    unfold clamp
    rw [if_pos hbelow]
  have hsmall : (clamp M a).natAbs < 2 * (-M).natAbs := by
    unfold clamp
    split_ifs <;> omega
  rw [clamp_tdiv_eq_iff (by omega), hclamp,
    div_eq_div_iff_of_lt_two_mul (by omega) (by omega) hsmall]
  unfold clamp
  split_ifs <;> omega

/-- The quotient is the same, and it is not the one that is out of range. -/
theorem clamp_tdiv_iff_eq (hM : 1 < M) (hb : b ≠ 0) :
    Fits M ((clamp M a).tdiv (clamp M b)) ∧ (clamp M a).tdiv (clamp M b) = a.tdiv b ↔
      (clamp M a).tdiv (clamp M b) = a.tdiv b ∧ ¬ (a = -M ∧ b = -1) := by
  have hpos : 0 < M := by omega
  rw [and_comm, fits_tdiv_iff (fits_clamp hpos a) fun h => hb ((clamp_eq_zero_iff hM).mp h)]
  refine and_congr_right fun heq => not_congr ?_
  constructor
  · rintro ⟨hleft, hright⟩
    have hminus : b = -1 := by
      unfold clamp at hright
      split_ifs at hright <;> omega
    subst hminus
    rw [hleft, hright, Int.tdiv_neg, Int.tdiv_one, Int.tdiv_neg, Int.tdiv_one] at heq
    exact ⟨by omega, rfl⟩
  · rintro ⟨rfl, rfl⟩
    unfold clamp
    exact ⟨by split_ifs <;> omega, by split_ifs <;> omega⟩

/-- The operands are in range, but for the one quotient that is not; or the dividend is out of
    range, and no multiple of the divisor is on its way; or the divisor is out of range, and the
    dividend so small, or so large, that the quotient has the size of the clamped one. -/
theorem clamp_tdiv_iff (hM : 2 < M) (hb : b ≠ 0) :
    Fits M ((clamp M a).tdiv (clamp M b)) ∧ (clamp M a).tdiv (clamp M b) = a.tdiv b ↔
      (Fits M a ∧ Fits M b ∧ ¬ (a = -M ∧ b = -1)) ∨
      (¬ Fits M a ∧ Fits M b ∧ ∀ m, b ∣ m → (M ≤ m → a < m) ∧ (m < -M → m < a)) ∨
      (M ≤ b ∧ (a.natAbs < M - 1 ∨ b ≤ a.natAbs ∧ a.natAbs < 2 * b)) ∨
      (b < -M ∧ (-M < a ∧ a < -b ∨ 2 * b < a ∧ a ≤ b)) := by
  have hpos : 1 < M := by omega
  rw [clamp_tdiv_iff_eq hpos hb]
  by_cases hfits : Fits M b
  · have hin : ¬ M ≤ b ∧ ¬ b < -M := by
      unfold Fits at hfits
      omega
    rw [clamp_tdiv_iff_of_fits hpos hb hfits]
    by_cases ha : Fits M a
    · have hnone : ∀ m, b ∣ m → (M ≤ m → a < m) ∧ (m < -M → m < a) := by
        unfold Fits at ha
        omega
      rw [and_iff_right hnone]
      simp only [ha, hfits, hin, true_and, not_true_eq_false, false_and, or_false]
    · have hother : ¬ (a = -M ∧ b = -1) := by
        unfold Fits at ha
        omega
      simp only [ha, hfits, hin, hother, not_false_eq_true, true_and, and_true, false_and,
        or_false, false_or]
  · have hother : ¬ (a = -M ∧ b = -1) := by
      unfold Fits at hfits
      omega
    rw [and_iff_left hother]
    by_cases habove : M ≤ b
    · have hbelow : ¬ b < -M := by omega
      rw [clamp_tdiv_iff_of_le hM habove]
      simp only [hfits, habove, hbelow, true_and, false_and, and_false, or_false, false_or]
    · have hbelow : b < -M := by
        unfold Fits at hfits
        omega
      rw [clamp_tdiv_iff_of_lt hM hbelow]
      simp only [hfits, habove, hbelow, true_and, false_and, and_false, false_or]

end Algiz.Lib
