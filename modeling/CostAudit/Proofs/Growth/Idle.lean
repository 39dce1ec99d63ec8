import CostAudit.Proofs.Growth.Fit

/-!
# Readings that took no time

The fit leaves a reading without time out, so the best line does not depend
on such readings. The least time does: one of them makes it zero, and with
it the setup time (`setupTime_of_idle`). A reading below the resolution of
the timer therefore switches the removal of the setup off. Taking such
readings out leaves the setup time as it was in three cases only: there was
none to take out, another one stayed, or the best line starts at zero or
below, where the setup time is zero without them too.
-/

namespace CostAudit.Growth

/-- The second list is the first one without some readings that took no
time. -/
inductive DropsIdle : List (Reading Rat) → List (Reading Rat) → Prop
  | nil : DropsIdle [] []
  | keep (r : Reading Rat) {rs kept : List (Reading Rat)} :
      DropsIdle rs kept → DropsIdle (r :: rs) (r :: kept)
  | drop {r : Reading Rat} {rs kept : List (Reading Rat)} :
      r.time = 0 → DropsIdle rs kept → DropsIdle (r :: rs) kept

variable {rs kept : List (Reading Rat)}

namespace DropsIdle

theorem sublist (h : DropsIdle rs kept) : kept.Sublist rs := by
  induction h with
  | nil => exact .slnil
  | keep r _ ih => exact ih.cons_cons r
  | drop _ _ ih => exact ih.cons _

theorem fitted_eq (h : DropsIdle rs kept) : fitted kept = fitted rs := by
  induction h with
  | nil => rfl
  | keep r _ ih =>
    simp only [fitted, List.filter_cons] at ih ⊢
    rw [ih]
  | drop hzero _ ih =>
    have hidle := Reading.informative_iff.not.mpr hzero.not_gt
    exact ih.trans (List.filter_cons_of_neg hidle).symm

/-- Unless everything was kept, a reading that took no time was there. -/
theorem eq_or_exists_idle (h : DropsIdle rs kept) : kept = rs ∨ ∃ r ∈ rs, r.time = 0 := by
  induction h with
  | nil => exact .inl rfl
  | keep r _ ih =>
    refine ih.imp (congrArg (r :: ·)) ?_
    rintro ⟨x, hx, hzero⟩
    exact ⟨x, List.mem_cons_of_mem r hx, hzero⟩
  | drop hzero _ _ => exact .inr ⟨_, List.mem_cons_self, hzero⟩

theorem misfit_eq (h : DropsIdle rs kept) : misfit kept = misfit rs := by
  funext a b
  rw [misfit_eq_weighted, misfit_eq_weighted, h.fitted_eq]

theorem isBestFit_iff (h : DropsIdle rs kept) {a b : Rat} :
    IsBestFit kept a b ↔ IsBestFit rs a b := by
  rw [IsBestFit, IsBestFit, h.misfit_eq]

theorem spansSizes_iff (h : DropsIdle rs kept) : SpansSizes kept ↔ SpansSizes rs := by
  rw [← hasTwoSizes_fitted_iff, ← hasTwoSizes_fitted_iff, h.fitted_eq]

end DropsIdle

/-- One reading without time takes the setup time to zero. -/
theorem setupTime_of_idle (h : ∃ r ∈ rs, r.time = 0) : setupTime rs = 0 := by
  obtain ⟨r, hr, hzero⟩ := h
  have hmem : r.time ∈ rs.map Reading.time := List.mem_map_of_mem hr
  have hleast : least (rs.map Reading.time) ≤ 0 :=
    hzero ▸ (isLeast_least (List.ne_nil_of_mem hmem)).2 hmem
  obtain ⟨hlow, hhigh⟩ := setupTime_mem_Icc rs
  rw [max_eq_right hleast] at hhigh
  exact le_antisymm hhigh hlow

/-- Where every reading took time, only a line that starts at zero or below
has no setup time. -/
theorem setupTime_eq_zero_iff (hspan : SpansSizes rs) (hbusy : ∀ r ∈ rs, 0 < r.time) :
    setupTime rs = 0 ↔ ∃ a b, IsBestFit rs a b ∧ a ≤ 0 := by
  obtain ⟨a, b, hfit, hsetup⟩ := setupTime_of_spansSizes hspan
  have hne : rs.map Reading.time ≠ [] := by
    obtain ⟨r, hr, -⟩ := hspan
    exact List.ne_nil_of_mem (List.mem_map_of_mem hr)
  have hleast : 0 < least (rs.map Reading.time) := by
    obtain ⟨r, hr, htime⟩ := List.mem_map.mp (least_mem hne)
    exact htime ▸ hbusy r hr
  rw [hsetup, max_eq_left_iff, max_eq_left hleast.le, min_le_iff, or_iff_left hleast.not_ge]
  constructor
  · exact fun ha => ⟨a, b, hfit, ha⟩
  · rintro ⟨a', b', hfit', ha'⟩
    exact (hfit.unique hfit').1 ▸ ha'

/-- Taking readings without time out leaves the best line as it is, and the
setup time only when none was taken out, another one stayed, or the line
starts at zero or below. -/
theorem setupTime_of_dropsIdle_iff (htimes : ∀ r ∈ rs, 0 ≤ r.time) (hspan : SpansSizes rs)
    (hdrop : DropsIdle rs kept) :
    (∀ a b, IsBestFit kept a b ↔ IsBestFit rs a b) ∧
      ((∃ r ∈ rs, r.time = 0) → setupTime rs = 0) ∧
      (setupTime kept = setupTime rs ↔
        kept = rs ∨ (∃ r ∈ kept, r.time = 0) ∨ ∃ a b, IsBestFit rs a b ∧ a ≤ 0) := by
  refine ⟨fun a b => hdrop.isBestFit_iff, setupTime_of_idle, ?_⟩
  rcases hdrop.eq_or_exists_idle with rfl | hidle
  · simp
  by_cases hkept : ∃ r ∈ kept, r.time = 0
  · simp [hkept, setupTime_of_idle hkept, setupTime_of_idle hidle]
  · have hne : kept ≠ rs := fun heq => hkept (heq ▸ hidle)
    have hbusy : ∀ r ∈ kept, 0 < r.time := by
      intro r hr
      refine lt_of_le_of_ne (htimes r (hdrop.sublist.subset hr)) fun hzero => ?_
      exact hkept ⟨r, hr, hzero.symm⟩
    have hzero := setupTime_eq_zero_iff (hdrop.spansSizes_iff.mpr hspan) hbusy
    simp only [hdrop.isBestFit_iff] at hzero
    rw [setupTime_of_idle hidle, hzero]
    simp only [hne, hkept, false_or]

/-- Two readings on a line that starts at one, after a reading below the
resolution of the timer. -/
def idleStart : List (Reading Rat) := [⟨0, 1⟩, ⟨2, 2⟩, ⟨4, 6⟩]

theorem time_nonneg_idleStart : ∀ r ∈ idleStart, 0 ≤ r.time := by norm_num [idleStart]

theorem spansSizes_idleStart : SpansSizes idleStart :=
  ⟨⟨2, 2⟩, by simp [idleStart], ⟨4, 6⟩, by simp [idleStart], by norm_num, by norm_num, by decide⟩

theorem dropsIdle_idleStart : DropsIdle idleStart idleStart.tail :=
  .drop rfl (.keep _ (.keep _ .nil))

theorem setupTime_idleStart : setupTime idleStart = 0 :=
  setupTime_of_idle ⟨⟨0, 1⟩, by simp [idleStart], rfl⟩

theorem setupTime_tail_idleStart : setupTime idleStart.tail = 1 := by
  refine setupTime_of_line (b := 1 / 2) zero_le_one ?_ ?_ ?_
  · norm_num [idleStart]
  · norm_num [idleStart]
  · exact hasTwoSizes_fitted_iff.mpr (dropsIdle_idleStart.spansSizes_iff.mpr spansSizes_idleStart)

/-- The line is found with the reading as it is without it, but the setup
time is not. -/
theorem setupTime_ne_of_dropsIdle :
    (∀ r ∈ idleStart, 0 ≤ r.time) ∧ SpansSizes idleStart ∧ DropsIdle idleStart idleStart.tail ∧
      (∀ a b, IsBestFit idleStart.tail a b ↔ IsBestFit idleStart a b) ∧
      setupTime idleStart = 0 ∧ setupTime idleStart.tail ≠ setupTime idleStart := by
  obtain ⟨hline, hzero, -⟩ :=
    setupTime_of_dropsIdle_iff time_nonneg_idleStart spansSizes_idleStart dropsIdle_idleStart
  have hidle : setupTime idleStart = 0 := hzero ⟨⟨0, 1⟩, by simp [idleStart], rfl⟩
  refine ⟨time_nonneg_idleStart, spansSizes_idleStart, dropsIdle_idleStart, hline, hidle, ?_⟩
  rw [hidle, setupTime_tail_idleStart]
  exact one_ne_zero

/-- A reading that took no time does count. -/
theorem exists_idle_hides_setup :
    ¬ ∀ rs kept : List (Reading Rat), (∀ r ∈ rs, 0 ≤ r.time) → SpansSizes rs →
      DropsIdle rs kept → setupTime kept = setupTime rs := by
  intro h
  have hkept := h _ _ time_nonneg_idleStart spansSizes_idleStart dropsIdle_idleStart
  rw [setupTime_tail_idleStart, setupTime_idleStart] at hkept
  exact one_ne_zero hkept

end CostAudit.Growth
