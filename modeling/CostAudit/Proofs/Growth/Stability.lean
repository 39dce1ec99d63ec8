import Mathlib.Data.Finset.Max
import CostAudit.Proofs.Growth.Ringing

/-!
# Smoothing is stable

How far a smoothed series can exceed the series, whatever its length.

The energy of the low pass carries the bound through a pass. Running free
divides it by three, and an input within a bound adds so little that an energy
of at most 0.28 times the square of the bound stays so (`energy_step_le`). A
pass starts below that, since it starts settled on an input, and an output is
bounded by the energy before it. So no output of a pass exceeds nine fifths of
the bound (`abs_le_of_mem_pass`), and the two passes and the reflections, with
up to three times the bound, stay below ten times of it.
-/

namespace CostAudit.Growth

namespace Coefficients

variable {m : Memory Rat} {x bound : Rat} {xs : List Rat}

/-! ## One step -/

/-- What an input of one leaves in a memory of nothing. -/
def impulse (c : Coefficients Rat) : Memory Rat := ⟨c.b1 - c.a0 * c.b0, c.b2 - c.a1 * c.b0⟩

theorem step_eq_blend (c : Coefficients Rat) (m : Memory Rat) (x : Rat) :
    (c.step m x).2 = .blend 1 x (c.free m) c.impulse := by
  simp only [step, free, impulse, Memory.blend, Memory.mk.injEq]
  constructor <;> ring

/-- The energy of a sum, with the mixed term traded for the energy of another
combination. -/
theorem energy_blend (c : Coefficients Rat) (p q : Rat) (m m' : Memory Rat) :
    12 * c.energy (.blend p q m m') = 21 * p ^ 2 * c.energy m + 28 * q ^ 2 * c.energy m' -
      c.energy (.blend (3 * p) (-4 * q) m m') := by
  simp only [energy, Memory.blend]
  ring

theorem energy_step_le (hx : |x| ≤ bound) (hm : lowPass.energy m ≤ 0.28 * bound ^ 2) :
    lowPass.energy (lowPass.step m x).2 ≤ 0.28 * bound ^ 2 := by
  have himpulse : lowPass.energy lowPass.impulse ≤ 0.0494 := by
    norm_num [energy, impulse, lowPass]
  have hfree : lowPass.energy (lowPass.free m) ≤ (1 / 3) ^ 1 * lowPass.energy m :=
    energy_iterate_free_le (le_refl 1) m
  have hsq : x ^ 2 ≤ bound ^ 2 := sq_le_sq.mpr (hx.trans (le_abs_self bound))
  have hinput : x ^ 2 * lowPass.energy lowPass.impulse ≤ bound ^ 2 * 0.0494 :=
    mul_le_mul hsq himpulse (energy_nonneg _) (sq_nonneg bound)
  have hblend := energy_blend lowPass 1 x (lowPass.free m) lowPass.impulse
  have hnonneg := energy_nonneg (.blend (3 * 1) (-4 * x) (lowPass.free m) lowPass.impulse)
  have hbound := sq_nonneg bound
  rw [step_eq_blend]
  linarith

theorem abs_step_le (hx : |x| ≤ bound) (hm : lowPass.energy m ≤ 0.28 * bound ^ 2) :
    |(lowPass.step m x).1| ≤ 9 / 5 * bound := by
  have hbound : 0 ≤ bound := (abs_nonneg x).trans hx
  have hfirst : |m.first| ≤ 17 / 10 * bound := by
    refine abs_le_of_sq_le_sq ((first_sq_le m).trans ?_) (by linarith)
    linarith [sq_nonneg bound]
  have hinput : |lowPass.b0 * x| ≤ 1 / 10 * bound := by
    have hcoeff : |(lowPass : Coefficients Rat).b0| ≤ 1 / 10 := by norm_num [lowPass]
    rw [abs_mul]
    exact mul_le_mul hcoeff hx (abs_nonneg x) (by norm_num)
  calc |(lowPass.step m x).1| ≤ |lowPass.b0 * x| + |m.first| := abs_add_le _ _
    _ ≤ 1 / 10 * bound + 17 / 10 * bound := add_le_add hinput hfirst
    _ = 9 / 5 * bound := by ring

/-! ## Passes -/

theorem abs_le_of_mem_feed (hxs : ∀ x ∈ xs, |x| ≤ bound)
    (hm : lowPass.energy m ≤ 0.28 * bound ^ 2) :
    ∀ y ∈ (lowPass.feed m xs).1, |y| ≤ 9 / 5 * bound := by
  induction xs generalizing m with
  | nil =>
    intro y hy
    cases hy
  | cons x xs ih =>
    obtain ⟨hx, hrest⟩ := List.forall_mem_cons.mp hxs
    intro y hy
    rcases List.mem_cons.mp hy with rfl | hy
    · exact abs_step_le hx hm
    · exact ih hrest (energy_step_le hx hm) y hy

theorem energy_settled_le (hx : |x| ≤ bound) :
    lowPass.energy (lowPass.settled x) ≤ 0.28 * bound ^ 2 := by
  have hunit : lowPass.energy lowPass.unitSettled ≤ 0.28 :=
    energy_unitSettled_le.trans (by norm_num)
  have hscaled : lowPass.energy (lowPass.settled x) =
      lowPass.energy lowPass.unitSettled * x ^ 2 := by
    simp only [energy, settled]
    ring
  have hsq : x ^ 2 ≤ bound ^ 2 := sq_le_sq.mpr (hx.trans (le_abs_self bound))
  rw [hscaled]
  exact mul_le_mul hunit hsq (sq_nonneg x) (by norm_num)

theorem abs_le_of_mem_pass (hxs : ∀ x ∈ xs, |x| ≤ bound) :
    ∀ y ∈ (lowPass.pass xs).1, |y| ≤ 9 / 5 * bound := by
  cases xs with
  | nil =>
    intro y hy
    cases hy
  | cons x xs => exact abs_le_of_mem_feed hxs (energy_settled_le (hxs x (List.mem_cons_self ..)))

end Coefficients

open Coefficients

variable {xs : List Rat} {bound : Rat}

theorem abs_le_of_mem_bothWays (hxs : ∀ x ∈ xs, |x| ≤ bound) :
    ∀ y ∈ bothWays lowPass xs, |y| ≤ 81 / 25 * bound := by
  have hback : ∀ x ∈ (lowPass.pass xs).1.reverse, |x| ≤ 9 / 5 * bound := by
    intro x hx
    exact abs_le_of_mem_pass hxs x (List.mem_reverse.mp hx)
  intro y hy
  have hle := abs_le_of_mem_pass hback y (List.mem_reverse.mp hy)
  linarith

/-! ## The ends of a series -/

theorem abs_le_of_mem_reflection (hxs : ∀ x ∈ xs, |x| ≤ bound) :
    ∀ y ∈ reflection xs, |y| ≤ 3 * bound := by
  cases xs with
  | nil =>
    intro y hy
    cases hy
  | cons x xs =>
    intro y hy
    obtain ⟨z, hz, rfl⟩ := List.mem_map.mp hy
    obtain ⟨hxlow, hxhigh⟩ := abs_le.mp (hxs x (List.mem_cons_self ..))
    obtain ⟨hzlow, hzhigh⟩ :=
      abs_le.mp (hxs z (List.mem_cons_of_mem _ (List.mem_of_mem_take hz)))
    rw [Scalar.ofNat_rat, abs_le]
    push_cast
    constructor <;> linarith

theorem abs_le_of_mem_extended (hxs : ∀ x ∈ xs, |x| ≤ bound) :
    ∀ y ∈ extended xs, |y| ≤ 3 * bound := by
  intro y hy
  simp only [extended, List.mem_append, List.mem_reverse] at hy
  rcases hy with (hy | hy) | hy
  · exact abs_le_of_mem_reflection hxs y hy
  · have hle := hxs y hy
    linarith [abs_nonneg y]
  · exact abs_le_of_mem_reflection (fun x hx => hxs x (List.mem_reverse.mp hx)) y hy

theorem abs_le_of_mem_smooth (hxs : ∀ x ∈ xs, |x| ≤ bound) :
    ∀ y ∈ smooth xs, |y| ≤ 10 * bound := by
  intro y hy
  have hten : |y| ≤ 243 / 25 * bound := by
    rcases Nat.lt_or_ge padding xs.length with hn | hshort
    · rw [smooth_of_length_gt hn] at hy
      have hle := abs_le_of_mem_bothWays (abs_le_of_mem_extended hxs) y
        (List.mem_of_mem_drop (List.mem_of_mem_take hy))
      linarith
    · rw [smooth_of_length_le hshort] at hy
      have hle := hxs y hy
      linarith [abs_nonneg y]
  linarith [abs_nonneg y]

/-- **Smoothing is stable at every length.** No value of a smoothed series is
more than ten times the largest absolute value in the series. -/
theorem abs_smooth_le_ten_peak (xs : List Rat) :
    ∀ y ∈ smooth xs, ∃ peak ∈ xs, (∀ x ∈ xs, |x| ≤ |peak|) ∧ |y| ≤ 10 * |peak| := by
  intro y hy
  have hne : xs.toFinset.Nonempty := by
    rw [List.toFinset_nonempty_iff, ← List.length_pos_iff, ← length_smooth]
    exact List.length_pos_of_mem hy
  obtain ⟨peak, hpeak, hmax⟩ := xs.toFinset.exists_max_image (|·|) hne
  simp only [List.mem_toFinset] at hpeak hmax
  exact ⟨peak, hpeak, hmax, abs_le_of_mem_smooth hmax y hy⟩

/-- Behind a drop a smoothed series exceeds the series. -/
theorem abs_smooth_overshooting :
    let xs : List Rat := [1, -1, -1, -1, -1, -1, -1]
    ∃ y ∈ smooth xs, 1 < |y| ∧
      ∃ peak ∈ xs, (∀ x ∈ xs, |x| ≤ |peak|) ∧ |y| ≤ 10 * |peak| := by
  intro xs
  obtain ⟨y, hy, hlarge⟩ : ∃ y ∈ smooth xs, 1 < |y| := by decide +kernel
  exact ⟨y, hy, hlarge, abs_smooth_le_ten_peak xs y hy⟩

end CostAudit.Growth
