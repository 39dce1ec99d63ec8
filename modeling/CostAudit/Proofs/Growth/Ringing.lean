import Mathlib.Algebra.Order.Ring.Abs
import Mathlib.Tactic.Positivity
import CostAudit.Proofs.Growth.Wake

/-!
# How far a drop rings

The wake of the low pass in numbers. Close to the drop it is a table, and
further out its energy bounds it, which running free divides by three. A
ripple has at most three quarters of the energy of the tail that was cut
off.

A rise from one place to a later one is measured against twice the earlier
value, which is what the verdict tolerates.
-/

namespace CostAudit.Growth

namespace Coefficients

theorem lowPass_resonates : (lowPass : Coefficients Rat).resonance ≠ 0 := by
  norm_num [resonance, lowPass]

/-! ## The size of a wake -/

theorem first_sq_le (m : Memory Rat) : m.first ^ 2 ≤ 10 * lowPass.energy m := by
  have hform := lowPass.first_sq_le_energy m
  have hcoeff : (0.1 : Rat) ≤ lowPass.a1 - lowPass.a0 ^ 2 / 4 := by norm_num [lowPass]
  have hle := mul_le_mul_of_nonneg_right hcoeff (sq_nonneg m.first)
  linarith

theorem energy_nonneg (m : Memory Rat) : 0 ≤ lowPass.energy m := by
  have hsq := first_sq_le m
  linarith [sq_nonneg m.first]

theorem energy_iterate_free_le {n k : Nat} (hk : k ≤ n) (m : Memory Rat) :
    lowPass.energy (lowPass.free^[n] m) ≤ (1 / 3) ^ k * lowPass.energy m := by
  have hpos : (0 : Rat) ≤ lowPass.a1 := by norm_num [lowPass]
  have hthird : (lowPass : Coefficients Rat).a1 ≤ 1 / 3 := by norm_num [lowPass]
  have hpow : (lowPass : Coefficients Rat).a1 ^ n ≤ (1 / 3) ^ k :=
    (pow_le_pow_of_le_one hpos (by linarith) hk).trans (pow_le_pow_left₀ hpos hthird k)
  rw [energy_iterate_free]
  exact mul_le_mul_of_nonneg_right hpow (energy_nonneg m)

theorem energy_unitSettled_le : lowPass.energy lowPass.unitSettled ≤ 0.1265 := by
  norm_num [energy, unitSettled, constantGain, lowPass]

theorem abs_first_iterate_free_le {n k : Nat} {m : Memory Rat} {bound : Rat} (hk : k ≤ n)
    (hbound : 0 ≤ bound) (h : 10 * ((1 / 3) ^ k * lowPass.energy m) ≤ bound ^ 2) :
    |(lowPass.free^[n] m).first| ≤ bound := by
  refine abs_le_of_sq_le_sq ((first_sq_le _).trans (le_trans ?_ h)) hbound
  exact mul_le_mul_of_nonneg_left (energy_iterate_free_le hk m) (by norm_num)

theorem abs_wake_le {n : Nat} (hn : 10 ≤ n) : |lowPass.wake n| ≤ 0.0024 := by
  have henergy : lowPass.energy (lowPass.echoMemory lowPass.unitSettled) ≤ 0.016 := by
    norm_num [energy, echoMemory, echo, echoWeight, echoNextWeight, resonance, free, unitSettled,
      constantGain, lowPass]
  rw [wake_eq]
  refine abs_first_iterate_free_le hn (by norm_num) ?_
  linarith

/-- The wake close to its drop, and pairs of places there. -/
theorem wake_table : ∀ n < 10, (-0.0377 ≤ lowPass.wake n ∧ lowPass.wake n ≤ 0.368) ∧
    (3 ≤ n → lowPass.wake n ≤ 0.0024) ∧
    ∀ k < n, (n < 6 → lowPass.wake n - 2 * lowPass.wake k ≤ 0.0516) ∧
      (n < 3 → 2 * lowPass.wake n - lowPass.wake k ≤ 0.0425) := by
  decide +kernel

theorem wake_bounds (n : Nat) : -0.0377 ≤ lowPass.wake n ∧ lowPass.wake n ≤ 0.368 := by
  rcases Nat.lt_or_ge n 10 with hn | hn
  · exact (wake_table n hn).1
  · have habs := abs_le.mp (abs_wake_le hn)
    constructor <;> linarith

theorem wake_le_of_three_le {n : Nat} (hn : 3 ≤ n) : lowPass.wake n ≤ 0.0024 := by
  rcases Nat.lt_or_ge n 10 with hlt | hge
  · exact (wake_table n hlt).2.1 hn
  · exact (abs_le.mp (abs_wake_le hge)).2

theorem wake_sub_le_of_lt_six {n n' : Nat} (h : n < n') (h' : n' < 6) :
    lowPass.wake n' - 2 * lowPass.wake n ≤ 0.0516 :=
  ((wake_table n' (by omega)).2.2 n h).1 h'

theorem wake_sub_le {n n' : Nat} (h : n < n') :
    lowPass.wake n' - 2 * lowPass.wake n ≤ 0.0778 := by
  rcases Nat.lt_or_ge n' 6 with h' | h'
  · linarith [wake_sub_le_of_lt_six h h']
  · have hlow : lowPass.wake n' ≤ 0.0024 := wake_le_of_three_le (by omega)
    linarith [(wake_bounds n).1]

theorem two_wake_sub_le {n n' : Nat} (h : n' < n) :
    2 * lowPass.wake n - lowPass.wake n' ≤ 0.0425 := by
  rcases Nat.lt_or_ge n 3 with hn | hn
  · exact ((wake_table n (by omega)).2.2 n' h).2 hn
  · linarith [wake_le_of_three_le hn, (wake_bounds n').1]

/-! ## The size of a ripple -/

/-- Three quarters of the energy of a memory, less that of what a start at
it misses: a quadratic form in the memory. -/
def spare (m : Memory Rat) : Rat := 3 / 4 * lowPass.energy m - lowPass.energy (lowPass.missed m)

/-- The mixed coefficient of that form. -/
def spareMixed : Rat := spare ⟨1, 1⟩ - spare ⟨1, 0⟩ - spare ⟨0, 1⟩

theorem spare_eq (m : Memory Rat) :
    spare m = spare ⟨1, 0⟩ * m.first ^ 2 + spareMixed * m.first * m.second +
      spare ⟨0, 1⟩ * m.second ^ 2 := by
  simp only [spareMixed, spare, energy, missed, heard, echo, free, settled, Memory.blend]
  ring

theorem spare_nonneg (m : Memory Rat) : 0 ≤ spare m := by
  have hpos : 0 < spare ⟨1, 0⟩ := by
    norm_num [spare, energy, missed, heard, settled, Memory.blend, echo, echoWeight,
      echoNextWeight, resonance, free, unitSettled, constantGain, lowPass]
  have hdisc : 0 ≤ 4 * (spare ⟨1, 0⟩ * spare ⟨0, 1⟩) - spareMixed * spareMixed := by
    norm_num [spareMixed, spare, energy, missed, heard, settled, Memory.blend, echo, echoWeight,
      echoNextWeight, resonance, free, unitSettled, constantGain, lowPass]
  -- Completing the square leaves the discriminant.
  have hsquares : 4 * spare ⟨1, 0⟩ * spare m =
      (2 * spare ⟨1, 0⟩ * m.first + spareMixed * m.second) ^ 2 +
        (4 * (spare ⟨1, 0⟩ * spare ⟨0, 1⟩) - spareMixed * spareMixed) * m.second ^ 2 := by
    rw [spare_eq m]
    ring
  have hprod : 0 ≤ 4 * spare ⟨1, 0⟩ * spare m := by
    rw [hsquares]
    exact add_nonneg (sq_nonneg _) (mul_nonneg hdisc (sq_nonneg _))
  exact nonneg_of_mul_nonneg_right hprod (by linarith)

theorem energy_missed_tail_le {n k : Nat} (hk : k ≤ n) :
    lowPass.energy (lowPass.missed (lowPass.tail n)) ≤ 0.0949 * (1 / 3) ^ k := by
  have hspare := spare_nonneg (lowPass.tail n)
  have htail : lowPass.energy (lowPass.tail n) ≤ (1 / 3) ^ k * 0.1265 :=
    (energy_iterate_free_le hk _).trans
      (mul_le_mul_of_nonneg_left energy_unitSettled_le (by positivity))
  rw [spare] at hspare
  have hpow : (0 : Rat) < (1 / 3) ^ k := by positivity
  linarith

theorem energy_missed_tail_le_start (n : Nat) :
    lowPass.energy (lowPass.missed (lowPass.tail n)) ≤ 0.0326 := by
  cases n with
  | zero =>
    show lowPass.energy (lowPass.missed lowPass.unitSettled) ≤ 0.0326
    norm_num [energy, missed, heard, settled, Memory.blend, echo, echoWeight, echoNextWeight,
      resonance, free, unitSettled, constantGain, lowPass]
  | succ n =>
    have hle : lowPass.energy (lowPass.missed (lowPass.tail (n + 1))) ≤ 0.0949 * (1 / 3) ^ 1 :=
      energy_missed_tail_le (by omega)
    linarith

theorem abs_ripple_le_of_six {n s : Nat} (hs : 6 ≤ s) : |lowPass.ripple n s| ≤ 0.0212 := by
  refine abs_first_iterate_free_le hs (by norm_num) ?_
  linarith [energy_missed_tail_le_start n]

theorem abs_ripple_le_of_seven {n s : Nat} (hs : 7 ≤ s) : |lowPass.ripple n s| ≤ 0.0123 := by
  refine abs_first_iterate_free_le hs (by norm_num) ?_
  linarith [energy_missed_tail_le_start n]

theorem abs_ripple_le_of_far {n s : Nat} (hn : 6 ≤ n) (hs : 6 ≤ s) :
    |lowPass.ripple n s| ≤ 0.0014 := by
  refine abs_first_iterate_free_le hs (by norm_num) ?_
  linarith [energy_missed_tail_le hn]

end Coefficients

/-! ## The image of a drop -/

/-- A value of a series that is smoothed when a drop in its extension is all
there is to it. -/
def dropImage (n place i : Nat) : Rat :=
  Coefficients.lowPass.bothWaysAt (n + 2 * padding) (dropAt place) (i + padding)

/-- By how much a value of the image exceeds twice an earlier one. -/
def dropRise (n place i j : Nat) : Rat := dropImage n place j - 2 * dropImage n place i

section DropImage

open Coefficients

variable {n place i j : Nat}

theorem dropImage_zero (hn : 0 < n) : dropImage n 0 i = 0 := by
  have hzero : ∀ t < n + 2 * padding, dropAt 0 t = 0 := fun t _ => dropAt_of_le t.zero_le
  rw [dropImage, lowPass.bothWaysAt_of_constant lowPass_settles (by omega) hzero, mul_zero]

theorem dropImage_past (hn : 0 < n) (hplace : n + 2 * padding ≤ place) :
    dropImage n place i = smoothGain := by
  have hone : ∀ t < n + 2 * padding, dropAt place t = 1 :=
    fun t ht => dropAt_of_lt (ht.trans_le hplace)
  rw [dropImage, lowPass.bothWaysAt_of_constant lowPass_settles (by omega) hone, mul_one]
  rfl

theorem dropImage_eq (hpos : 0 < place) (hplace : place < n + 12) (hi : i < n) :
    dropImage n place i =
      (if i + 6 < place then smoothGain - lowPass.wake (place - 1 - (i + 6))
        else lowPass.wake (i + 6 - place)) +
      lowPass.ripple (n + 11 - place) (n + 11 - (i + 6)) :=
  lowPass.bothWaysAt_dropAt lowPass_settles lowPass_resonates hpos hplace
    (Nat.add_lt_add_of_lt_of_le hi (by decide))

theorem le_smoothGain : 0.996 ≤ smoothGain := by
  norm_num [smoothGain, constantGain, lowPass]

/-- From a place before the drop there is no rise; behind the drop its wake
decides. -/
theorem dropRise_le_of_wake {bound : Rat} (hpos : 0 < place) (hplace : place ≤ n + 5)
    (hij : i < j) (hj : j < n) (hbound : 0 ≤ bound)
    (hwake : place ≤ i + 6 →
      lowPass.wake (j + 6 - place) - 2 * lowPass.wake (i + 6 - place) ≤ bound) :
    dropRise n place i j ≤ bound + 0.0042 := by
  have hripple (k) (hk : k < n) :
      -0.0014 ≤ lowPass.ripple (n + 11 - place) (n + 11 - (k + 6)) ∧
        lowPass.ripple (n + 11 - place) (n + 11 - (k + 6)) ≤ 0.0014 :=
    abs_le.mp (abs_ripple_le_of_far (by omega) (by omega))
  have hi := hij.trans hj
  rw [dropRise, dropImage_eq hpos (by omega) hi, dropImage_eq hpos (by omega) hj]
  have hgain := le_smoothGain
  obtain ⟨-, hj'⟩ := hripple j hj
  obtain ⟨hi', -⟩ := hripple i hi
  split_ifs with hjside hiside
  · linarith [(wake_bounds (place - 1 - (j + 6))).1, (wake_bounds (place - 1 - (i + 6))).2]
  · omega
  · linarith [(wake_bounds (j + 6 - place)).2, (wake_bounds (place - 1 - (i + 6))).2]
  · linarith [hwake (by omega)]

theorem dropRise_le (hpos : 0 < place) (hplace : place ≤ n + 5) (hij : i < j) (hj : j < n) :
    dropRise n place i j ≤ 0.082 := by
  have hwake (h : place ≤ i + 6) :
      lowPass.wake (j + 6 - place) - 2 * lowPass.wake (i + 6 - place) ≤ 0.0778 :=
    wake_sub_le (by omega)
  linarith [dropRise_le_of_wake hpos hplace hij hj (by norm_num) hwake]

/-- Up to five places behind the drop its wake still falls. -/
theorem dropRise_le_of_near (hpos : 0 < place) (hplace : place ≤ n + 5) (hij : i < j)
    (hj : j < n) (hnear : j < place) : dropRise n place i j ≤ 0.0558 := by
  have hwake (h : place ≤ i + 6) :
      lowPass.wake (j + 6 - place) - 2 * lowPass.wake (i + 6 - place) ≤ 0.0516 :=
    wake_sub_le_of_lt_six (by omega) (by omega)
  linarith [dropRise_le_of_wake hpos hplace hij hj (by norm_num) hwake]

/-- The image of a drop that lies in the extension behind the series. -/
theorem dropRise_le_of_behind (hbehind : n + 6 ≤ place) (hplace : place < n + 12) (hij : i < j)
    (hj : j < n) : dropRise n place i j ≤ 0.0883 - smoothGain := by
  have hi := hij.trans hj
  have hj' : -0.0212 ≤ lowPass.ripple (n + 11 - place) (n + 11 - (j + 6)) ∧
      lowPass.ripple (n + 11 - place) (n + 11 - (j + 6)) ≤ 0.0212 :=
    abs_le.mp (abs_ripple_le_of_six (by omega))
  have hi' : -0.0123 ≤ lowPass.ripple (n + 11 - place) (n + 11 - (i + 6)) ∧
      lowPass.ripple (n + 11 - place) (n + 11 - (i + 6)) ≤ 0.0123 :=
    abs_le.mp (abs_ripple_le_of_seven (by omega))
  have hwake : 2 * lowPass.wake (place - 1 - (i + 6)) - lowPass.wake (place - 1 - (j + 6)) ≤
      0.0425 :=
    two_wake_sub_le (by omega)
  rw [dropRise, dropImage_eq (by omega) hplace hi, dropImage_eq (by omega) hplace hj,
    if_pos (by omega), if_pos (by omega)]
  linarith

end DropImage

end CostAudit.Growth
