/-
Machine words as integers.

A 32-bit signed quantity is an `Int` that every narrowing store brings back
into `[-2^31, 2^31)` with `toInt32`. Inside that range nothing is lost
(`toInt32_of_mem`), so a proof about code that stays in range never sees the
wrap-around; outside it the wrap-around is `Int.bmod`, which is what the
hardware does.
-/
import Mathlib.Data.Int.Init
import Mathlib.Tactic.NormNum

set_option autoImplicit false

namespace Words

/-- The range of a 32-bit signed integer. -/
def InInt32 (x : ℤ) : Prop := -2 ^ 31 ≤ x ∧ x < 2 ^ 31

instance (x : ℤ) : Decidable (InInt32 x) := inferInstanceAs (Decidable (_ ∧ _))

/-- A natural number has an upper bound to keep only. -/
theorem inInt32_natCast (n : ℕ) : InInt32 n ↔ n < 2 ^ 31 := by
  unfold InInt32
  omega

/-- Narrowing to 32 bits: the value a 32-bit signed integer keeps of `x`. -/
def toInt32 (x : ℤ) : ℤ := Int.bmod x (2 ^ 32)

/-- In range nothing is lost. -/
theorem toInt32_of_mem {x : ℤ} (hx : InInt32 x) : toInt32 x = x := by
  obtain ⟨hlo, hhi⟩ := hx
  exact Int.bmod_eq_of_le (by norm_num at hlo ⊢; omega) (by norm_num at hhi ⊢; omega)

/-- The result is always in range. -/
theorem toInt32_mem (x : ℤ) : InInt32 (toInt32 x) := by
  have hlo : -((2 ^ 32 : ℕ) : ℤ) / 2 ≤ toInt32 x := by
    have := Int.le_bmod (x := x) (m := 2 ^ 32) (by norm_num)
    norm_num [toInt32] at this ⊢; omega
  have hhi : toInt32 x < (((2 ^ 32 : ℕ) : ℤ) + 1) / 2 := Int.bmod_lt (by norm_num)
  constructor <;> norm_num at hlo hhi ⊢ <;> omega

/-- It is the same modulo 2^32. -/
theorem toInt32_emod (x : ℤ) : toInt32 x % 2 ^ 32 = x % 2 ^ 32 := by
  have hmod := Int.bmod_emod (x := x) (m := 2 ^ 32)
  unfold toInt32
  norm_num at hmod ⊢
  exact hmod

/-- A multiple of `2 ^ f` that narrows to `2 ^ f` is a multiple by 1 modulo 256. -/
theorem dvd_sub_one_of_toInt32_mul {b : ℤ} {f : ℕ} (hf : f ≤ 24) (h : toInt32 (b * 2 ^ f) = 2 ^ f) :
    (256 : ℤ) ∣ b - 1 := by
  have hmod : (2 : ℤ) ^ 32 ∣ (b - 1) * 2 ^ f := by
    have hb := toInt32_emod (b * 2 ^ f)
    rw [h] at hb
    rw [Int.sub_mul, one_mul]
    exact Int.dvd_of_emod_eq_zero (Int.emod_eq_emod_iff_emod_sub_eq_zero.mp hb.symm)
  have hsplit : (2 : ℤ) ^ 32 = 2 ^ (32 - f) * 2 ^ f := by
    rw [← pow_add, Nat.sub_add_cancel (by omega)]
  rw [hsplit] at hmod
  have hdvd := Int.dvd_of_mul_dvd_mul_right (pow_ne_zero f (by norm_num : (2 : ℤ) ≠ 0)) hmod
  have h256 : (256 : ℤ) = 2 ^ 8 := by norm_num
  rw [h256]
  exact (pow_dvd_pow 2 (by omega)).trans hdvd

end Words
