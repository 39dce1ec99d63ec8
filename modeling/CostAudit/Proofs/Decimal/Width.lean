import Mathlib.Tactic.NormNum
import CostAudit.Proofs.Binary64.Nearest

/-!
# How wide numbers are

The digits of a number below a power of ten are no more than the exponent
(`length_digits_le`), so a word has twenty at most. A number with decimal
places has these besides, and the point (`length_fixed_le`).
-/

namespace CostAudit.Decimal

theorem length_digits_le {n k : Nat} (hk : 0 < k) (h : n < 10 ^ k) : (digits n).length ≤ k := by
  induction k generalizing n with
  | zero => cases hk
  | succ k ih =>
      unfold digits
      split
      · exact Nat.le_add_left 1 k
      · rename_i hlarge
        have hk : k ≠ 0 := by
          rintro rfl
          omega
        have hrest : n / 10 < 10 ^ k := Nat.div_lt_of_lt_mul (by rwa [Nat.pow_succ'] at h)
        rw [List.length_append]
        exact Nat.succ_le_succ (ih (Nat.pos_of_ne_zero hk) hrest)

/-- A word has twenty digits at most. -/
theorem length_digits_word_le (w : UInt64) : (digits w.toNat).length ≤ 20 :=
  length_digits_le (by decide) (w.toNat_lt.trans (by decide))

theorem length_padded {width n : Nat} (hwidth : 0 < width) (h : n < 10 ^ width) :
    (padded width n).length = width := by
  have hdigits := length_digits_le hwidth h
  rw [padded, List.length_append, List.length_replicate]
  omega

/-- The digits before the point are those of a number below a power of ten,
if the fraction is by more than the rounding can add. -/
theorem length_fixed_le {places k : Nat} (hk : 0 < k) {q : Rat} (hq : 0 ≤ q)
    (h : q + 1 ≤ 10 ^ k) : (fixed places q).length ≤ k + 1 + places := by
  have hpow : Nat.pow 10 places = 10 ^ places := rfl
  have hscale : (1 : Rat) ≤ 10 ^ places := one_le_pow₀ (by norm_num)
  have hround := toNat_roundHalfEven_le (q := q * (10 ^ places : Nat)) (by positivity)
  have hscaled : (roundHalfEven (q * (10 ^ places : Nat))).toNat < 10 ^ places * 10 ^ k := by
    push_cast at hround
    have hlt := calc ((roundHalfEven (q * 10 ^ places)).toNat : Rat)
        ≤ q * 10 ^ places + 1 / 2 := hround
      _ < (q + 1) * 10 ^ places := by linarith
      _ ≤ 10 ^ k * 10 ^ places := mul_le_mul_of_nonneg_right h (by positivity)
      _ = 10 ^ places * 10 ^ k := mul_comm _ _
    push_cast
    exact mod_cast hlt
  have hwhole := length_digits_le hk (Nat.div_lt_of_lt_mul hscaled)
  rw [fixed, hpow]
  split
  · omega
  · rename_i hplaces
    rw [List.length_append, List.length_cons,
      length_padded (Nat.pos_of_ne_zero hplaces) (Nat.mod_lt _ (Nat.pow_pos (by decide)))]
    omega

end CostAudit.Decimal
