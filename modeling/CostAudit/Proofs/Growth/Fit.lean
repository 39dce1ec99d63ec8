import Mathlib.Order.Bounds.Basic
import Mathlib.Tactic.LinearCombination
import Mathlib.Tactic.Push
import CostAudit.Growth
import CostAudit.Proofs.Growth.Setup

/-!
# The setup time is read off the best line

Of all lines through readings the fit finds the one with the least misfit,
the sum of the squared relative deviations. Its start and its slope solve
the normal equations, so its deviations cancel, also when each is multiplied
with the value of some other line at its size (`weighted_deviation`). The
misfit of another line is then the least one and the square of what
separates the two lines at the sizes read (`misfit_eq_add`); two lines that
differ are apart at one of two sizes.

Nothing in the fit, in the least time or in the test for two sizes asks for
the order of the readings.
-/

namespace CostAudit.Growth

/-- The sum of the squared relative deviations from the line `a + b * n`,
over the readings that took time. -/
def misfit (rs : List (Reading Rat)) (a b : Rat) : Rat :=
  ((rs.filter fun r => 0 < r.time).map fun r => ((r.time - a - b * r.size) / r.time) ^ 2).sum

/-- Every other line misses the readings by more. -/
def IsBestFit (rs : List (Reading Rat)) (a b : Rat) : Prop :=
  ∀ a' b', (a', b') ≠ (a, b) → misfit rs a b < misfit rs a' b'

/-- Two readings that took time were taken at different sizes. -/
def SpansSizes (rs : List (Reading Rat)) : Prop :=
  ∃ r ∈ rs, ∃ r' ∈ rs, 0 < r.time ∧ 0 < r'.time ∧ r.size ≠ r'.size

variable {rs rs' : List (Reading Rat)}

theorem mem_fitted {r : Reading Rat} : r ∈ fitted rs ↔ r ∈ rs ∧ 0 < r.time := by
  rw [List.mem_filter, Reading.informative_iff]

theorem fitted_eq_filter (rs : List (Reading Rat)) :
    fitted rs = rs.filter fun r => 0 < r.time := by
  refine List.filter_congr fun r _ => ?_
  rw [Bool.eq_iff_iff, Reading.informative_iff, decide_eq_true_iff]

theorem hasTwoSizes_fitted_iff : hasTwoSizes (fitted rs) = true ↔ SpansSizes rs := by
  simp only [hasTwoSizes_iff, mem_fitted]
  constructor
  · rintro ⟨r, ⟨hr, ht⟩, r', ⟨hr', ht'⟩, hne⟩
    exact ⟨r, hr, r', hr', ht, ht', hne⟩
  · rintro ⟨r, hr, r', hr', ht, ht', hne⟩
    exact ⟨r, ⟨hr, ht⟩, r', ⟨hr', ht'⟩, hne⟩

/-! ## The normal equations -/

/-- The equations between the sums and the line of a fit. -/
structure Sums.Normal (sums : Sums Rat) (a b : Rat) : Prop where
  times : a * sums.s + b * sums.sx = sums.sy
  sizes : a * sums.sx + b * sums.sxx = sums.sxy

/-- The slope of the fitted line. -/
def Sums.slope (a : Sums Rat) : Rat := (a.s * a.sxy - a.sx * a.sy) / a.det

theorem Sums.normal_of_det {sums : Sums Rat} (hdet : sums.det ≠ 0) :
    sums.Normal sums.intercept sums.slope := by
  constructor <;>
  · rw [Sums.intercept, Sums.slope, div_mul_eq_mul_div, div_mul_eq_mul_div, ← add_div,
      div_eq_iff hdet, Sums.det]
    ring

/-- The deviations from the line of a fit cancel, whatever line they are
multiplied with. -/
theorem weighted_deviation {a b : Rat} (hnormal : (Sums.of rs).Normal a b) (p q : Rat) :
    weighted (fun r => (p + q * r.size) * (r.time - a - b * r.size)) rs = 0 := by
  have hsplit : weighted (fun r => (p + q * r.size) * (r.time - a - b * r.size)) rs =
      p * (weighted Reading.time rs +
        (-a * weighted (fun _ => 1) rs + -b * weighted (fun r => r.size) rs)) +
      q * (weighted (fun r => r.size * r.time) rs +
        (-a * weighted (fun r => r.size) rs + -b * weighted (fun r => r.size * r.size) rs)) := by
    simp only [← weighted_mul, ← weighted_add]
    exact weighted_congr fun r _ => by ring
  obtain ⟨htimes, hsizes⟩ := hnormal
  simp only [Sums.of_eq] at htimes hsizes
  rw [hsplit]
  linear_combination -p * htimes - q * hsizes

/-! ## The least misfit -/

theorem misfit_eq_weighted (rs : List (Reading Rat)) (a b : Rat) :
    misfit rs a b = weighted (fun r => (r.time - a - b * r.size) ^ 2) (fitted rs) := by
  rw [misfit, weighted, fitted_eq_filter]
  refine congrArg List.sum (List.map_congr_left fun r _ => ?_)
  rw [div_pow, sq r.time, one_div_mul_eq_div]

/-- What a line misses beyond the fitted one is the square of what separates
the two. -/
theorem misfit_eq_add {a b : Rat} (hnormal : (Sums.of (fitted rs)).Normal a b) (a' b' : Rat) :
    misfit rs a' b' =
      misfit rs a b + weighted (fun r => ((a - a') + (b - b') * r.size) ^ 2) (fitted rs) := by
  have hcancel := weighted_deviation hnormal (2 * (a - a')) (2 * (b - b'))
  calc misfit rs a' b'
      = weighted (fun r => (r.time - a' - b' * r.size) ^ 2) (fitted rs) := misfit_eq_weighted ..
    _ = weighted (fun r => (r.time - a - b * r.size) ^ 2) (fitted rs) +
          (weighted (fun r => (2 * (a - a') + 2 * (b - b') * r.size) *
            (r.time - a - b * r.size)) (fitted rs) +
          weighted (fun r => ((a - a') + (b - b') * r.size) ^ 2) (fitted rs)) := by
        rw [← weighted_add, ← weighted_add]
        exact weighted_congr fun r _ => by ring
    _ = misfit rs a b + weighted (fun r => ((a - a') + (b - b') * r.size) ^ 2) (fitted rs) := by
        rw [hcancel, zero_add, misfit_eq_weighted]

/-- Two lines that differ are apart at one of two sizes. -/
theorem exists_apart (h : SpansSizes rs) {a b a' b' : Rat} (hne : (a', b') ≠ (a, b)) :
    ∃ r ∈ fitted rs, (a - a') + (b - b') * r.size ≠ 0 := by
  obtain ⟨x, hx, y, hy, hxt, hyt, hsize⟩ := h
  by_contra! hall
  have hatx := hall x (mem_fitted.mpr ⟨hx, hxt⟩)
  have haty := hall y (mem_fitted.mpr ⟨hy, hyt⟩)
  have hprod : (b - b') * ((x.size : Rat) - y.size) = 0 := by linear_combination hatx - haty
  have hsize' : (x.size : Rat) - y.size ≠ 0 := sub_ne_zero.mpr (Nat.cast_injective.ne hsize)
  have hb : b - b' = 0 := (mul_eq_zero.mp hprod).resolve_right hsize'
  rw [hb, zero_mul, add_zero] at hatx
  exact hne (by rw [sub_eq_zero.mp hatx, sub_eq_zero.mp hb])

theorem isBestFit_of_spansSizes (h : SpansSizes rs) :
    IsBestFit rs (Sums.of (fitted rs)).intercept (Sums.of (fitted rs)).slope := by
  intro a' b' hne
  have hdet := det_fitted_pos (hasTwoSizes_fitted_iff.mpr h)
  rw [misfit_eq_add (Sums.normal_of_det hdet.ne') a' b']
  obtain ⟨r, hr, hapart⟩ := exists_apart h hne
  refine lt_add_of_pos_right _ (weighted_pos (fun _ _ => sq_nonneg _) hr (mem_fitted.mp hr).2 ?_)
  exact sq_pos_of_ne_zero hapart

/-- At most one line fits best. -/
theorem IsBestFit.unique {a b a' b' : Rat} (h : IsBestFit rs a b) (h' : IsBestFit rs a' b') :
    a' = a ∧ b' = b := by
  by_contra hne
  have hne' : (a', b') ≠ (a, b) := fun heq => hne (Prod.mk.inj heq)
  exact lt_asymm (h a' b' hne') (h' a b hne'.symm)

/-! ## The least time -/

theorem least_mem {xs : List Rat} (hxs : xs ≠ []) : least xs ∈ xs := by
  obtain ⟨x, xs, rfl⟩ := List.exists_cons_of_ne_nil hxs
  rw [least]
  clear hxs
  induction xs generalizing x with
  | nil => exact List.mem_singleton_self x
  | cons y xs ih =>
    rw [List.foldl_cons, Scalar.smaller_rat]
    rcases min_choice x y with h | h <;> rw [h]
    · exact (List.cons_subset_cons x (List.subset_cons_self y xs)) (ih x)
    · exact List.mem_cons_of_mem x (ih y)

theorem isLeast_least {xs : List Rat} (hxs : xs ≠ []) : IsLeast {x | x ∈ xs} (least xs) :=
  ⟨least_mem hxs, fun x hx => (le_least_iff hxs).mp le_rfl x hx⟩

theorem least_perm {xs ys : List Rat} (h : xs.Perm ys) : least xs = least ys := by
  rcases eq_or_ne xs [] with rfl | hxs
  · rw [h.nil_eq]
  · have hys : ys ≠ [] := fun hnil => hxs (hnil ▸ h).eq_nil
    refine eq_of_forall_le_iff fun a => ?_
    rw [le_least_iff hxs, le_least_iff hys]
    exact ⟨fun ha y hy => ha y (h.mem_iff.mpr hy), fun ha x hx => ha x (h.mem_iff.mp hx)⟩

/-! ## The order of the readings -/

theorem weighted_perm {f : Reading Rat → Rat} (h : rs.Perm rs') : weighted f rs = weighted f rs' :=
  (h.map _).sum_eq

theorem Sums.of_perm (h : rs.Perm rs') : Sums.of rs = Sums.of rs' := by
  simp only [Sums.of_eq, weighted_perm h]

theorem hasTwoSizes_perm (h : rs.Perm rs') : hasTwoSizes rs = hasTwoSizes rs' := by
  rw [Bool.eq_iff_iff, hasTwoSizes_iff, hasTwoSizes_iff]
  simp only [h.mem_iff]

theorem setupTime_perm (h : rs.Perm rs') : setupTime rs = setupTime rs' := by
  have hfitted : (fitted rs).Perm (fitted rs') := h.filter _
  rw [setupTime, setupTime, hasTwoSizes_perm hfitted, Sums.of_perm hfitted, least_perm (h.map _)]

/-! ## The setup time -/

theorem setupTime_of_not_spansSizes (h : ¬ SpansSizes rs) : setupTime rs = 0 :=
  setupTime_of_not_hasTwoSizes (Bool.eq_false_iff.mpr (hasTwoSizes_fitted_iff.not.mpr h))

/-- The setup time is never below zero and never above the least time. -/
theorem setupTime_mem_Icc (rs : List (Reading Rat)) :
    0 ≤ setupTime rs ∧ setupTime rs ≤ max (least (rs.map Reading.time)) 0 := by
  by_cases h : SpansSizes rs
  · rw [setupTime_of_hasTwoSizes (hasTwoSizes_fitted_iff.mpr h)]
    exact ⟨le_max_left _ _, max_le (le_max_right _ _) (min_le_left _ _)⟩
  · rw [setupTime_of_not_spansSizes h]
    exact ⟨le_rfl, le_max_right _ _⟩

theorem setupTime_of_spansSizes (h : SpansSizes rs) :
    ∃ a b, IsBestFit rs a b ∧
      setupTime rs = max 0 (min a (max (least (rs.map Reading.time)) 0)) := by
  refine ⟨_, _, isBestFit_of_spansSizes h, ?_⟩
  rw [setupTime_of_hasTwoSizes (hasTwoSizes_fitted_iff.mpr h), min_comm]

theorem map_time_zipWith {times : List Rat} {sizes : List Nat}
    (hlength : times.length = sizes.length) :
    (times.zipWith Reading.mk sizes).map Reading.time = times := by
  refine List.ext_getElem (by simp [hlength]) fun i _ _ => by simp

/-- The setup time is the start of the best line, kept between zero and the
least time, or zero when there is no best line; in any order of the readings
it is the same. -/
theorem setupTime_is_start_of_bestFit {times : List Rat} {sizes : List Nat}
    (hlength : times.length = sizes.length) :
    ∃ rs, readings times sizes = .ok rs ∧
      (SpansSizes rs → 0 < (Sums.of (fitted rs)).det ∧
        ∃ a b m, IsBestFit rs a b ∧ IsLeast {t | t ∈ times} m ∧
          setupTime rs = max 0 (min a (max m 0))) ∧
      (¬ SpansSizes rs → setupTime rs = 0) ∧
      (times ≠ [] → ∃ m, IsLeast {t | t ∈ times} m ∧ 0 ≤ setupTime rs ∧ setupTime rs ≤ max m 0) ∧
      ∀ rs', rs'.Perm rs → setupTime rs' = setupTime rs := by
  have htimes := map_time_zipWith hlength
  refine ⟨_, if_pos hlength, ?_, setupTime_of_not_spansSizes, ?_, fun _ => setupTime_perm⟩
  · intro hspan
    have hne : times ≠ [] := by
      obtain ⟨r, hr, -⟩ := hspan
      exact List.ne_nil_of_mem (htimes ▸ List.mem_map_of_mem hr)
    obtain ⟨a, b, hfit, hsetup⟩ := setupTime_of_spansSizes hspan
    rw [htimes] at hsetup
    exact ⟨det_fitted_pos (hasTwoSizes_fitted_iff.mpr hspan), a, b, _, hfit, isLeast_least hne,
      hsetup⟩
  · intro hne
    have hbounds := setupTime_mem_Icc (times.zipWith Reading.mk sizes)
    rw [htimes] at hbounds
    exact ⟨_, isLeast_least hne, hbounds⟩

/-- Three readings on no line: the best one starts at `20 / 17`. -/
theorem setupTime_of_threeReadings :
    ([2, 2, 4] : List Rat).length = [1, 2, 4].length ∧
      ∃ rs, readings [(2 : Rat), 2, 4] [1, 2, 4] = .ok rs ∧ SpansSizes rs ∧
        (∃ b, IsBestFit rs (20 / 17) b) ∧
        setupTime rs = 20 / 17 ∧ setupTime rs.reverse = 20 / 17 := by
  have hlength : ([2, 2, 4] : List Rat).length = [1, 2, 4].length := rfl
  obtain ⟨rs, hrs, hspans, -, -, hperm⟩ := setupTime_is_start_of_bestFit hlength
  obtain rfl : [⟨2, 1⟩, ⟨2, 2⟩, ⟨4, 4⟩] = rs := Except.ok.inj hrs
  have hspan : SpansSizes [⟨2, 1⟩, ⟨2, 2⟩, ⟨4, 4⟩] :=
    ⟨⟨2, 1⟩, by simp, ⟨2, 2⟩, by simp, by norm_num, by norm_num, by decide⟩
  have hsetup : setupTime ([⟨2, 1⟩, ⟨2, 2⟩, ⟨4, 4⟩] : List (Reading Rat)) = 20 / 17 := by
    decide +kernel
  obtain ⟨-, a, b, m, hfit, hleast, hclamp⟩ := hspans hspan
  obtain rfl : m = 2 := hleast.unique ⟨by simp, by norm_num [lowerBounds]⟩
  -- Neither end of the clamp is `20 / 17`, so the best line starts there.
  obtain rfl : a = 20 / 17 := by
    rw [hsetup] at hclamp
    rcases min_choice a (max 2 0) with h | h <;> rw [h] at hclamp
    · rcases max_choice 0 a with h' | h' <;> rw [h'] at hclamp
      · norm_num at hclamp
      · exact hclamp.symm
    · norm_num at hclamp
  exact ⟨hlength, _, hrs, hspan, ⟨b, hfit⟩, hsetup, (hperm _ (List.reverse_perm _)).trans hsetup⟩

end CostAudit.Growth
