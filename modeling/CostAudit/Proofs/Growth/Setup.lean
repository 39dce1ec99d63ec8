import Mathlib.Algebra.BigOperators.Group.List.Basic
import Mathlib.Algebra.BigOperators.Ring.List
import Mathlib.Algebra.Order.BigOperators.Group.List
import Mathlib.Tactic.FieldSimp
import Mathlib.Tactic.Positivity
import CostAudit.Growth.Setup
import CostAudit.Proofs.Scalar

/-!
# The fit finds the line

The sums of a fit are weighted sums over its readings, and its determinant
is the scatter of the sizes about their weighted mean. Two different sizes
make the scatter positive, so the fit is defined. Readings that lie on a
line are fitted by that line, and its value at size zero is the setup
time, as long as it is one: not below zero, and not above a time taken.
-/

namespace CostAudit.Growth

theorem Reading.informative_iff {r : Reading Rat} : r.informative = true ↔ 0 < r.time := by
  simp [Reading.informative]

theorem hasTwoSizes_iff {rs : List (Reading Rat)} :
    hasTwoSizes rs = true ↔ ∃ r ∈ rs, ∃ r' ∈ rs, r.size ≠ r'.size := by
  cases rs with
  | nil => simp [hasTwoSizes]
  | cons r rs =>
    simp only [hasTwoSizes, List.any_eq_true, bne_iff_ne]
    constructor
    · rintro ⟨r', hr', hne⟩
      exact ⟨r', List.mem_cons_of_mem r hr', r, List.mem_cons_self, hne⟩
    · rintro ⟨x, hx, y, hy, hne⟩
      by_cases hxr : x.size = r.size
      · have hy' : y.size ≠ r.size := fun h => hne (hxr.trans h.symm)
        have hyrs := (List.mem_cons.mp hy).resolve_left fun h => hy' (congrArg Reading.size h)
        exact ⟨y, hyrs, hy'⟩
      · have hxrs := (List.mem_cons.mp hx).resolve_left fun h => hxr (congrArg Reading.size h)
        exact ⟨x, hxrs, hxr⟩

/-! ## Weighted sums -/

/-- The sum of a quantity over readings, each weighted by the inverse
square of its time. -/
def weighted (f : Reading Rat → Rat) (rs : List (Reading Rat)) : Rat :=
  (rs.map fun r => 1 / (r.time * r.time) * f r).sum

variable {rs : List (Reading Rat)} {f g : Reading Rat → Rat}

theorem weighted_congr (h : ∀ r ∈ rs, f r = g r) : weighted f rs = weighted g rs := by
  unfold weighted
  rw [List.map_congr_left fun r hr => by rw [h r hr]]

theorem weighted_add : weighted (fun r => f r + g r) rs = weighted f rs + weighted g rs := by
  simp only [weighted, mul_add, List.sum_map_add]

theorem weighted_mul (c : Rat) : weighted (fun r => c * f r) rs = c * weighted f rs := by
  simp only [weighted, mul_left_comm _ c, List.sum_map_mul_left]

theorem weighted_pos (hf : ∀ r ∈ rs, 0 ≤ f r) {r : Reading Rat} (hr : r ∈ rs) (ht : 0 < r.time)
    (hpos : 0 < f r) : 0 < weighted f rs := by
  have hterm : 0 < 1 / (r.time * r.time) * f r := by positivity
  refine hterm.trans_le (List.single_le_sum ?_ _ (List.mem_map_of_mem hr))
  simp only [List.forall_mem_map]
  intro r' hr'
  exact mul_nonneg (div_nonneg zero_le_one (mul_self_nonneg _)) (hf r' hr')

theorem foldl_add_eq (a : Sums Rat) :
    rs.foldl Sums.add a =
      ⟨a.s + weighted (fun _ => 1) rs, a.sx + weighted (fun r => r.size) rs,
        a.sy + weighted Reading.time rs, a.sxx + weighted (fun r => r.size * r.size) rs,
        a.sxy + weighted (fun r => r.size * r.time) rs⟩ := by
  induction rs generalizing a with
  | nil => simp [weighted]
  | cons r rs ih =>
    rw [List.foldl_cons, ih]
    simp only [Sums.add, weighted, List.map_cons, List.sum_cons, Sums.mk.injEq,
      Scalar.ofNat_rat, Scalar.one_rat]
    refine ⟨?_, ?_, ?_, ?_, ?_⟩ <;> ring

theorem Sums.of_eq (rs : List (Reading Rat)) :
    Sums.of rs =
      ⟨weighted (fun _ => 1) rs, weighted (fun r => r.size) rs, weighted Reading.time rs,
        weighted (fun r => r.size * r.size) rs, weighted (fun r => r.size * r.time) rs⟩ := by
  simp [Sums.of, foldl_add_eq]

/-! ## The fit -/

/-- The determinant, about any centre: the scatter of the sizes about it,
less what a centre off the mean adds. -/
theorem det_eq_scatter (c : Rat) :
    (Sums.of rs).det =
      weighted (fun _ => 1) rs * weighted (fun r => (r.size - c) * (r.size - c)) rs -
        (weighted (fun r => r.size) rs - c * weighted (fun _ => 1) rs) *
          (weighted (fun r => r.size) rs - c * weighted (fun _ => 1) rs) := by
  have hscatter : weighted (fun r => (r.size - c) * (r.size - c)) rs =
      weighted (fun r => r.size * r.size) rs + (-2 * c * weighted (fun r => r.size) rs +
        c * c * weighted (fun _ => 1) rs) := by
    rw [← weighted_mul, ← weighted_mul, ← weighted_add, ← weighted_add]
    exact weighted_congr fun r _ => by ring
  rw [hscatter, Sums.of_eq]
  simp only [Sums.det]
  ring

theorem det_pos (htime : ∀ r ∈ rs, 0 < r.time) (hsizes : hasTwoSizes rs = true) :
    0 < (Sums.of rs).det := by
  obtain ⟨x, hx, y, hy, hne⟩ := hasTwoSizes_iff.mp hsizes
  have hone : 0 < weighted (fun _ => 1) rs :=
    weighted_pos (fun _ _ => zero_le_one) hx (htime x hx) one_pos
  -- About their weighted mean the sizes scatter, since two of them cannot both be the mean.
  obtain ⟨c, hc⟩ : ∃ c, weighted (fun r => (r.size : Rat)) rs = c * weighted (fun _ => 1) rs :=
    ⟨_, (div_mul_cancel₀ _ hone.ne').symm⟩
  have hoff : ∃ r ∈ rs, (r.size : Rat) - c ≠ 0 := by
    by_cases hxc : (x.size : Rat) = c
    · exact ⟨y, hy, fun h => hne (by exact_mod_cast hxc.trans (sub_eq_zero.mp h).symm)⟩
    · exact ⟨x, hx, sub_ne_zero.mpr hxc⟩
  obtain ⟨r, hr, hrc⟩ := hoff
  have hscatter : 0 < weighted (fun r => (r.size - c) * (r.size - c)) rs :=
    weighted_pos (fun _ _ => mul_self_nonneg _) hr (htime r hr) (mul_self_pos.mpr hrc)
  rw [det_eq_scatter c, hc, sub_self, mul_zero, sub_zero]
  exact mul_pos hone hscatter

theorem intercept_of_line {a b : Rat} (hline : ∀ r ∈ rs, r.time = a + b * r.size)
    (hdet : (Sums.of rs).det ≠ 0) : (Sums.of rs).intercept = a := by
  have hsy : weighted Reading.time rs =
      a * weighted (fun _ => 1) rs + b * weighted (fun r => r.size) rs := by
    rw [← weighted_mul, ← weighted_mul, ← weighted_add]
    exact weighted_congr fun r hr => by rw [hline r hr]; ring
  have hsxy : weighted (fun r => r.size * r.time) rs =
      a * weighted (fun r => r.size) rs + b * weighted (fun r => r.size * r.size) rs := by
    rw [← weighted_mul, ← weighted_mul, ← weighted_add]
    exact weighted_congr fun r hr => by rw [hline r hr]; ring
  rw [Sums.intercept, div_eq_iff hdet, Sums.of_eq]
  simp only [Sums.det, hsy, hsxy]
  ring

/-! ## The setup time -/

theorem le_least_iff {a : Rat} {xs : List Rat} (hxs : xs ≠ []) :
    a ≤ least xs ↔ ∀ x ∈ xs, a ≤ x := by
  obtain ⟨x, xs, rfl⟩ := List.exists_cons_of_ne_nil hxs
  rw [least]
  clear hxs
  induction xs generalizing x with
  | nil => simp
  | cons y xs ih =>
    rw [List.foldl_cons, ih]
    simp [and_assoc]

/-- The readings a fit takes in. -/
abbrev fitted (rs : List (Reading Rat)) : List (Reading Rat) := rs.filter Reading.informative

theorem det_fitted_pos (h : hasTwoSizes (fitted rs) = true) : 0 < (Sums.of (fitted rs)).det :=
  det_pos (fun _ hr => Reading.informative_iff.mp (List.mem_filter.mp hr).2) h

theorem setupTime_of_not_hasTwoSizes (h : hasTwoSizes (fitted rs) = false) :
    setupTime rs = 0 := by
  simp [setupTime, h]

/-- With two sizes in the fit the setup time is its intercept, kept between
zero and the least time: the exit for a determinant of zero is never
taken. -/
theorem setupTime_of_hasTwoSizes (h : hasTwoSizes (fitted rs) = true) :
    setupTime rs =
      max 0 (min (max (least (rs.map Reading.time)) 0) (Sums.of (fitted rs)).intercept) := by
  have hdet := det_fitted_pos h
  simp only [setupTime, h, Scalar.le_rat, Scalar.zero_rat, Scalar.larger_rat, Bool.not_true,
    Bool.false_eq_true, if_false, decide_eq_true_eq, hdet.not_ge]
  exact Scalar.clamp_rat _ _ _ (le_max_right _ _)

/-- Readings on a line that starts at or above zero and does not fall below
its start have that start as their setup time. -/
theorem setupTime_of_line {a b : Rat} (ha : 0 ≤ a) (hline : ∀ r ∈ rs, r.time = a + b * r.size)
    (hstart : ∀ r ∈ rs, a ≤ r.time) (h : hasTwoSizes (fitted rs) = true) : setupTime rs = a := by
  have hintercept : (Sums.of (fitted rs)).intercept = a :=
    intercept_of_line (fun r hr => hline r (List.mem_filter.mp hr).1) (det_fitted_pos h).ne'
  have hne : rs.map Reading.time ≠ [] := by
    rintro hnil
    rw [List.map_eq_nil_iff] at hnil
    simp [hnil, hasTwoSizes] at h
  have hleast : a ≤ least (rs.map Reading.time) := by
    rw [le_least_iff hne, List.forall_mem_map]
    exact hstart
  rw [setupTime_of_hasTwoSizes h, hintercept, min_eq_right (hleast.trans (le_max_left _ _)),
    max_eq_right ha]

end CostAudit.Growth
