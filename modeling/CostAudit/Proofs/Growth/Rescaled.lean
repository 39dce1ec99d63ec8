import CostAudit.Proofs.Growth.Verdict

/-!
# The verdict has no unit of time

Times in another unit are the same times, each multiplied by one factor.
Every stage either carries the factor along or loses it. A weight of the fit
is divided by the square of the factor, so the determinant by the fourth power
and the intercept is multiplied by the factor itself; the smoothing is linear;
a value and the anchor it is compared with have the factor in common
(`risesFrom_rescale`). No test on the way compares a time with anything but
zero or another time, so both runs take the same branches.
-/

namespace CostAudit.Growth

/-- A reading with its time in another unit. -/
def Reading.rescale (c : Rat) (r : Reading Rat) : Reading Rat := ⟨c * r.time, r.size⟩

/-- A mark with its value in another unit. -/
def Mark.rescale (c : Rat) (m : Mark Rat) : Mark Rat := ⟨c * m.value, m.anchor⟩

section

variable {c : Rat} {rs : List (Reading Rat)}

/-! ## The fit -/

theorem Reading.informative_rescale (hc : 0 < c) (r : Reading Rat) :
    (r.rescale c).informative = r.informative := by
  rw [Bool.eq_iff_iff, Reading.informative_iff, Reading.informative_iff]
  exact mul_pos_iff_of_pos_left hc

theorem fitted_rescale (hc : 0 < c) (rs : List (Reading Rat)) :
    fitted (rs.map (Reading.rescale c)) = (fitted rs).map (Reading.rescale c) := by
  rw [fitted, List.filter_map]
  congr 2
  exact funext (Reading.informative_rescale hc)

theorem hasTwoSizes_rescale (rs : List (Reading Rat)) :
    hasTwoSizes (rs.map (Reading.rescale c)) = hasTwoSizes rs := by
  cases rs with
  | nil => rfl
  | cons r rs => simp only [List.map_cons, hasTwoSizes, List.any_map]; rfl

/-- What a change of unit multiplies by `k` it multiplies by `k` less two
factors in a weighted sum. -/
theorem weighted_rescale {f : Reading Rat → Rat} (k : Rat)
    (hf : ∀ r, f (Reading.rescale c r) = k * f r) (rs : List (Reading Rat)) :
    weighted f (rs.map (Reading.rescale c)) = 1 / (c * c) * (k * weighted f rs) := by
  rw [← weighted_mul, weighted, weighted, List.map_map, ← List.sum_map_mul_left]
  refine congrArg List.sum (List.map_congr_left fun r _ => ?_)
  rw [Function.comp_apply, hf, Reading.rescale, mul_mul_mul_comm, ← one_div_mul_one_div, mul_assoc]

/-- Sums whose weights are multiplied by `u` and whose times by `c`. -/
def Sums.rescale (u c : Rat) (a : Sums Rat) : Sums Rat :=
  ⟨u * a.s, u * a.sx, u * (c * a.sy), u * a.sxx, u * (c * a.sxy)⟩

theorem Sums.of_rescale (c : Rat) (rs : List (Reading Rat)) :
    Sums.of (rs.map (Reading.rescale c)) = (Sums.of rs).rescale (1 / (c * c)) c := by
  have hsize (f : Reading Rat → Rat) (hf : ∀ r, f (Reading.rescale c r) = f r) :
      weighted f (rs.map (Reading.rescale c)) = 1 / (c * c) * weighted f rs := by
    simpa using weighted_rescale 1 (fun r => (hf r).trans (one_mul _).symm) rs
  have htime : weighted Reading.time (rs.map (Reading.rescale c)) =
      1 / (c * c) * (c * weighted Reading.time rs) := weighted_rescale c (fun _ => rfl) rs
  have hsizeTime : weighted (fun r => r.size * r.time) (rs.map (Reading.rescale c)) =
      1 / (c * c) * (c * weighted (fun r => r.size * r.time) rs) :=
    weighted_rescale c (fun r => mul_left_comm (r.size : Rat) c r.time) rs
  rw [Sums.of_eq, Sums.of_eq, Sums.rescale, htime, hsizeTime, hsize (fun _ => 1) fun _ => rfl,
    hsize (fun r => r.size) fun _ => rfl, hsize (fun r => r.size * r.size) fun _ => rfl]

theorem Sums.intercept_rescale {u : Rat} (hu : u ≠ 0) (a : Sums Rat) :
    (a.rescale u c).intercept = c * a.intercept := by
  have hdet : (a.rescale u c).det = u * u * a.det := by
    simp only [Sums.rescale, Sums.det]
    ring
  have hnumerator : u * a.sxx * (u * (c * a.sy)) - u * a.sx * (u * (c * a.sxy)) =
      u * u * (c * (a.sxx * a.sy - a.sx * a.sxy)) := by ring
  rw [Sums.intercept, hdet, Sums.rescale, hnumerator,
    mul_div_mul_left _ _ (mul_ne_zero hu hu), mul_div_assoc, Sums.intercept]

/-! ## The setup time -/

theorem least_rescale (hc : 0 ≤ c) (xs : List Rat) :
    least (xs.map (c * ·)) = c * least xs := by
  cases xs with
  | nil => exact (mul_zero c).symm
  | cons x xs =>
    simp only [List.map_cons, least]
    induction xs generalizing x with
    | nil => rfl
    | cons y xs ih =>
      rw [List.map_cons, List.foldl_cons, List.foldl_cons, Scalar.smaller_rat,
        Scalar.smaller_rat, ← mul_min_of_nonneg _ _ hc, ih]

theorem setupTime_rescale (hc : 0 < c) (rs : List (Reading Rat)) :
    setupTime (rs.map (Reading.rescale c)) = c * setupTime rs := by
  have htwo : hasTwoSizes (fitted (rs.map (Reading.rescale c))) = hasTwoSizes (fitted rs) := by
    rw [fitted_rescale hc, hasTwoSizes_rescale]
  have htimes : (rs.map (Reading.rescale c)).map Reading.time =
      (rs.map Reading.time).map (c * ·) := by
    simp only [List.map_map]
    rfl
  cases h : hasTwoSizes (fitted rs) with
  | false =>
    rw [setupTime_of_not_hasTwoSizes h, setupTime_of_not_hasTwoSizes (htwo.trans h), mul_zero]
  | true =>
    rw [setupTime_of_hasTwoSizes h, setupTime_of_hasTwoSizes (htwo.trans h), htimes,
      least_rescale hc.le, fitted_rescale hc, Sums.of_rescale,
      Sums.intercept_rescale (one_div_ne_zero (mul_self_ne_zero.mpr hc.ne')),
      mul_max_of_nonneg _ _ hc.le, mul_min_of_nonneg _ _ hc.le, mul_max_of_nonneg _ _ hc.le,
      mul_zero]

/-! ## The smoothed times per unit -/

theorem smooth_rescale (c : Rat) (xs : List Rat) :
    smooth (xs.map (c * ·)) = (smooth xs).map (c * ·) := by
  rcases Nat.lt_or_ge padding xs.length with hn | hshort
  · -- A multiple is a blend with nothing of a second signal.
    have hscaled (f : Nat → Rat) (n i : Nat) :
        smoothed n (fun t => c * f t) i = c * smoothed n f i := by
      simpa using smoothed_blend c 0 n f f i
    rw [eq_map_range xs, List.map_map, smooth_map_range hn, smooth_map_range hn, List.map_map]
    exact List.map_congr_left fun i _ => hscaled _ _ i
  · rw [smooth_of_length_le hshort, smooth_of_length_le (by simpa using hshort)]

theorem Reading.perUnit_rescale (hc : 0 ≤ c) (setup : Rat) (r : Reading Rat) :
    (r.rescale c).perUnit (c * setup) = c * r.perUnit setup := by
  rw [Reading.perUnit_eq, Reading.perUnit_eq, Reading.rescale, ← mul_sub, ← mul_div_assoc,
    mul_max_of_nonneg _ _ hc, mul_zero]

theorem Reading.isAnchor_rescale (hc : 0 < c) (setup : Rat) (r : Reading Rat) :
    (r.rescale c).isAnchor (c * setup) = r.isAnchor setup := by
  have hlevel : Scalar.le (c * setup) (c * r.time - c * setup) =
      Scalar.le setup (r.time - setup) := by
    rw [← mul_sub]
    exact decide_eq_decide.mpr (mul_le_mul_iff_right₀ hc)
  rw [Reading.isAnchor, Reading.isAnchor, Reading.rescale, hlevel]

theorem marks_rescale (hc : 0 < c) (rs : List (Reading Rat)) :
    marks (rs.map (Reading.rescale c)) = (marks rs).map (Mark.rescale c) := by
  have hvalues : (rs.map (Reading.rescale c)).map (Reading.perUnit (c * setupTime rs)) =
      (rs.map (Reading.perUnit (setupTime rs))).map (c * ·) := by
    simp only [List.map_map]
    exact List.map_congr_left fun r _ => r.perUnit_rescale hc.le _
  have hanchors : (rs.map (Reading.rescale c)).map (Reading.isAnchor (c * setupTime rs)) =
      rs.map (Reading.isAnchor (setupTime rs)) := by
    rw [List.map_map]
    exact List.map_congr_left fun r _ => r.isAnchor_rescale hc _
  rw [marks, setupTime_rescale hc, hvalues, hanchors, smooth_rescale, List.zipWith_map_left,
    marks, List.map_zipWith]
  rfl

/-! ## The scan -/

theorem exceeds_rescale (hc : 0 < c) (limit : Rat) (lowest : Option Rat) (value : Rat) :
    exceeds limit (lowest.map (c * ·)) (c * value) = exceeds limit lowest value := by
  cases lowest with
  | none => rfl
  | some base =>
    simp only [Option.map_some, exceeds, Scalar.lt_rat, mul_assoc, mul_lt_mul_iff_right₀ hc]

theorem lowestWith_rescale (hc : 0 < c) (lowest : Option Rat) (m : Mark Rat) :
    lowestWith (lowest.map (c * ·)) (m.rescale c) = (lowestWith lowest m).map (c * ·) := by
  have hpos : Scalar.lt Scalar.zero (c * m.value) = Scalar.lt Scalar.zero m.value :=
    decide_eq_decide.mpr (mul_pos_iff_of_pos_left hc)
  rw [lowestWith, lowestWith, Mark.rescale, hpos]
  split_ifs
  · cases lowest with
    | none => rfl
    | some base =>
      simp only [Option.map_some, Option.elim_some, Scalar.smaller_rat,
        mul_min_of_nonneg _ _ hc.le]
  · rfl

/-- The scan decides the same in any unit: the lowest anchor carries the
factor that the values carry. -/
theorem risesFrom_rescale (hc : 0 < c) (limit : Rat) (lowest : Option Rat)
    (ms : List (Mark Rat)) :
    risesFrom limit (lowest.map (c * ·)) (ms.map (Mark.rescale c)) =
      risesFrom limit lowest ms := by
  induction ms generalizing lowest with
  | nil => rfl
  | cons m ms ih =>
    rw [List.map_cons, risesFrom, risesFrom, lowestWith_rescale hc, ih]
    congr 1
    exact exceeds_rescale hc limit lowest m.value

theorem dangerous_rescale (hc : 0 < c) (scale : Rat) (rs : List (Reading Rat)) :
    dangerous scale (rs.map (Reading.rescale c)) = dangerous scale rs := by
  rw [dangerous, marks_rescale hc]
  exact risesFrom_rescale hc _ none _

end

/-- Times in another unit have the setup time in that unit, a smoothed series
is the smoothed series in that unit, and the verdict is the same. -/
theorem verdict_of_any_unit {c : Rat} (hc : 0 < c) {times : List Rat} {sizes : List Nat}
    (hlength : times.length = sizes.length) (scale : Rat) :
    (∀ xs : List Rat, smooth (xs.map (c * ·)) = (smooth xs).map (c * ·)) ∧
      ∃ rs rs', readings times sizes = .ok rs ∧ readings (times.map (c * ·)) sizes = .ok rs' ∧
        setupTime rs' = c * setupTime rs ∧ dangerous scale rs' = dangerous scale rs := by
  have hrescaled : (times.map (c * ·)).zipWith Reading.mk sizes =
      (times.zipWith Reading.mk sizes).map (Reading.rescale c) := by
    rw [List.zipWith_map_left, List.map_zipWith]
    rfl
  have hlength' : (times.map (c * ·)).length = sizes.length := by simpa using hlength
  refine ⟨smooth_rescale c, _, _, if_pos hlength, if_pos hlength', ?_, ?_⟩
  · rw [hrescaled, setupTime_rescale hc]
  · rw [hrescaled, dangerous_rescale hc]

/-- Sizes that double from the least one that may serve as an anchor. -/
def doubledSizes : List Nat := [16, 32, 64, 128, 256, 512, 1024, 2048]

/-- The times of quadratic work with a setup. -/
def quadraticTimes : List Rat := doubledSizes.map fun n : Nat => 400 + (n : Rat) * n

/-- Quadratic work is flagged in nanoseconds, and so it is in microseconds. -/
theorem verdict_of_microseconds :
    (0 : Rat) < 1 / 1000 ∧ quadraticTimes.length = doubledSizes.length ∧
      ∃ rs, readings (quadraticTimes.map (1 / 1000 * ·)) doubledSizes = .ok rs ∧
        dangerous 1 rs = true := by
  have hc : (0 : Rat) < 1 / 1000 := by norm_num
  have hlength : quadraticTimes.length = doubledSizes.length := List.length_map ..
  obtain ⟨-, rs, rs', hrs, hrs', -, hverdict⟩ := verdict_of_any_unit hc hlength 1
  have hflagged : (readings quadraticTimes doubledSizes).map (dangerous 1) = .ok true := by
    decide +kernel
  rw [hrs] at hflagged
  exact ⟨hc, hlength, rs', hrs', hverdict.trans (Except.ok.inj hflagged)⟩

end CostAudit.Growth
