import Mathlib.Algebra.Order.Field.Rat
import Mathlib.Algebra.Order.Field.Power
import Mathlib.Tactic.FieldSimp
import Mathlib.Tactic.Linarith
import Mathlib.Tactic.NormNum
import Mathlib.Tactic.Positivity
import Mathlib.Tactic.Ring
import CostAudit.Binary64

/-!
# How far rounding goes

Rounding to a whole number moves a fraction by half at most
(`roundHalfEven_le`). Rounding to double precision does so in units of the
last place, which are no larger than the fraction itself
(`two_zpow_lastPlace_le`); so it never more than doubles a fraction
(`nearest_le`).
-/

namespace CostAudit

theorem Decimal.roundHalfEven_le (q : Rat) : (Decimal.roundHalfEven q : Rat) ≤ q + 1 / 2 := by
  have hfloor := Rat.floor_le q
  simp only [roundHalfEven]
  split
  · rename_i hup
    push_cast
    rcases hup with hup | ⟨hup, -⟩ <;> linarith
  · linarith

theorem Decimal.toNat_roundHalfEven_le {q : Rat} (hq : 0 ≤ q) :
    ((Decimal.roundHalfEven q).toNat : Rat) ≤ q + 1 / 2 := by
  rcases le_total 0 (roundHalfEven q) with h | h
  · obtain ⟨n, hn⟩ := Int.eq_ofNat_of_zero_le h
    have hround := roundHalfEven_le q
    rw [hn] at hround ⊢
    exact mod_cast hround
  · rw [Int.toNat_of_nonpos h, Nat.cast_zero]
    linarith

namespace Binary64

theorem scaled_eq (m : Nat) (e : Int) : scaled m e = m * 2 ^ e := by
  rw [scaled]
  split
  · rename_i he
    obtain ⟨n, rfl⟩ := Int.eq_ofNat_of_zero_le he
    rw [Nat.cast_mul, zpow_natCast]
    norm_num
  · rename_i he
    obtain ⟨n, rfl⟩ : ∃ n : Nat, e = -n := ⟨(-e).toNat, by omega⟩
    rw [Rat.mkRat_eq_div, zpow_neg, zpow_natCast, neg_neg, Int.toNat_natCast, div_eq_mul_inv]
    norm_num

/-- The last of fifty-three bits of a positive fraction stands for no more
than the fraction. -/
theorem two_zpow_lastPlace_le {q : Rat} (hq : 0 < q) : (2 : Rat) ^ lastPlace q ≤ q := by
  have hnum : q.num.natAbs ≠ 0 := Int.natAbs_ne_zero.mpr (Rat.num_pos.mpr hq).ne'
  have hplace : lastPlace q ≤ (q.num.natAbs.log2 : Int) - (q.den.log2 : Int) - 52 := by
    simp only [lastPlace]
    split <;> omega
  have hquotient : q = (q.num.natAbs : Rat) / q.den := by
    rw [Nat.cast_natAbs, abs_of_pos (Rat.num_pos.mpr hq), Rat.num_div_den]
  have hden : (0 : Rat) < q.den := mod_cast q.den_pos
  refine (zpow_le_zpow_right₀ one_le_two hplace).trans ?_
  rw [hquotient, le_div_iff₀ hden, ← hquotient]
  calc (2 : Rat) ^ ((q.num.natAbs.log2 : Int) - q.den.log2 - 52) * q.den
      ≤ 2 ^ ((q.num.natAbs.log2 : Int) - q.den.log2 - 52) * 2 ^ ((q.den.log2 + 1 : Nat) : Int) := by
        have hlog : (q.den : Rat) ≤ 2 ^ ((q.den.log2 + 1 : Nat) : Int) := by
          rw [zpow_natCast]
          exact mod_cast (Nat.lt_log2_self (n := q.den)).le
        exact mul_le_mul_of_nonneg_left hlog (by positivity)
    _ = 2 ^ ((q.num.natAbs.log2 : Int) - 51) := by
        rw [← zpow_add₀ two_ne_zero]
        congr 1
        push_cast
        ring
    _ ≤ 2 ^ (q.num.natAbs.log2 : Int) := zpow_le_zpow_right₀ one_le_two (by omega)
    _ ≤ q.num.natAbs := by
        rw [zpow_natCast]
        exact mod_cast Nat.log2_self_le hnum

theorem nearest_nonneg (q : Rat) : 0 ≤ nearest q := by
  rw [nearest, scaled_eq]
  positivity

theorem nearest_le {q : Rat} (hq : 0 ≤ q) : nearest q ≤ 2 * q := by
  rcases hq.eq_or_lt with rfl | hpos
  · have hzero : Decimal.roundHalfEven 0 = 0 := by decide +kernel
    simp [nearest, scaled_eq, hzero]
  · have hunit : (0 : Rat) < 2 ^ lastPlace q := by positivity
    have hsmall := two_zpow_lastPlace_le hpos
    calc nearest q
        = ((Decimal.roundHalfEven (q / 2 ^ lastPlace q)).toNat : Rat) * 2 ^ lastPlace q := by
          rw [nearest, scaled_eq, scaled_eq, Nat.cast_one, one_mul]
      _ ≤ (q / 2 ^ lastPlace q + 1 / 2) * 2 ^ lastPlace q :=
          mul_le_mul_of_nonneg_right (Decimal.toNat_roundHalfEven_le (by positivity)) hunit.le
      _ = q + 2 ^ lastPlace q / 2 := by
          rw [add_mul, div_mul_cancel₀ _ hunit.ne']
          ring
      _ ≤ 2 * q := by linarith

end Binary64

end CostAudit
