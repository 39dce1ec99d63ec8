import Mathlib.Tactic.Push
import CostAudit.Growth
import CostAudit.Proofs.Scalar

/-!
# Rises are pairs

The scan keeps one lowest anchor. Over exact arithmetic what it decides is
a fact about pairs of marks: some value exceeds the tolerated multiple of
an anchor before it. The lowest anchor stands for all the anchors before,
because multiplying by the limit respects the order.

A pair stays a pair when further anchors are marked and values are
appended. A lower scale is compared with the higher one along the scan
itself (`risesFrom_of_le`), since a scale that is not positive has no
statement about pairs.
-/

namespace CostAudit.Growth

/-- The second of two marks does not rise above the first: a positive
anchor bounds what comes after it. -/
def Tolerates (limit : Rat) (m m' : Mark Rat) : Prop :=
  m.anchor = true → 0 < m.value → m'.value ≤ m.value * limit

variable {limit : Rat}

theorem exceeds_eq_false_iff {lowest : Option Rat} {value : Rat} :
    exceeds limit lowest value = false ↔ ∀ base ∈ lowest, value ≤ base * limit := by
  cases lowest <;> simp [exceeds]

theorem lowestWith_of_not_anchor {lowest : Option Rat} {m : Mark Rat}
    (hm : ¬ (m.anchor = true ∧ 0 < m.value)) : lowestWith lowest m = lowest := by
  simpa [lowestWith] using fun ha hv => absurd ⟨ha, hv⟩ hm

/-- A value stays below the lowest anchor exactly when it stays below the
one known before and below the one just seen. -/
theorem forall_lowestWith_iff (hlimit : 0 ≤ limit) {lowest : Option Rat} {m m' : Mark Rat} :
    (∀ base ∈ lowestWith lowest m, m'.value ≤ base * limit) ↔
      (∀ base ∈ lowest, m'.value ≤ base * limit) ∧ Tolerates limit m m' := by
  by_cases hm : m.anchor = true ∧ 0 < m.value
  · cases lowest with
    | none => simp [lowestWith, Tolerates, hm]
    | some base => simp [lowestWith, Tolerates, hm, min_mul_of_nonneg _ _ hlimit]
  · rw [lowestWith_of_not_anchor hm]
    exact ⟨fun h => ⟨h, fun ha hv => absurd ⟨ha, hv⟩ hm⟩, And.left⟩

theorem risesFrom_eq_false_iff (hlimit : 0 ≤ limit) {lowest : Option Rat} {ms : List (Mark Rat)} :
    risesFrom limit lowest ms = false ↔
      (∀ m ∈ ms, ∀ base ∈ lowest, m.value ≤ base * limit) ∧ ms.Pairwise (Tolerates limit) := by
  induction ms generalizing lowest with
  | nil => simp [risesFrom]
  | cons m ms ih =>
    have hlow : (∀ m' ∈ ms, ∀ base ∈ lowestWith lowest m, m'.value ≤ base * limit) ↔
        (∀ m' ∈ ms, ∀ base ∈ lowest, m'.value ≤ base * limit) ∧
          ∀ m' ∈ ms, Tolerates limit m m' := by
      rw [← forall₂_and]
      exact forall₂_congr fun m' _ => forall_lowestWith_iff hlimit
    rw [risesFrom, Bool.or_eq_false_iff, exceeds_eq_false_iff, ih, hlow, List.forall_mem_cons,
      List.pairwise_cons]
    constructor
    · rintro ⟨hm, ⟨hms, htol⟩, hpair⟩
      exact ⟨⟨hm, hms⟩, htol, hpair⟩
    · rintro ⟨⟨hm, hms⟩, htol, hpair⟩
      exact ⟨hm, ⟨hms, htol⟩, hpair⟩

/-- A series does not rise exactly when no anchor in it is exceeded by a
later value. -/
theorem rises_eq_false_iff {scale : Rat} (hscale : 0 ≤ scale) {ms : List (Mark Rat)} :
    rises scale ms = false ↔ ms.Pairwise (Tolerates (2 * scale)) := by
  have hlimit : (0 : Rat) ≤ 2 * scale := by linarith
  show risesFrom (2 * scale) none ms = false ↔ _
  simp [risesFrom_eq_false_iff hlimit]

/-! ## Values and anchors side by side -/

/-- Some value exceeds a multiple of a positive anchor before it. -/
def ExceedsAnchor (limit : Rat) (values : List Rat) (anchors : List Bool) : Prop :=
  ∃ (j i : Nat) (x y : Rat), j < i ∧ anchors[j]? = some true ∧ values[j]? = some x ∧
    values[i]? = some y ∧ 0 < x ∧ limit * x < y

section ExceedsAnchor

variable {values more : List Rat} {anchors anchors' : List Bool} {scale : Rat}

theorem rises_zipWith_iff (hlength : values.length = anchors.length) (hscale : 0 ≤ scale) :
    rises scale (values.zipWith Mark.mk anchors) = true ↔
      ExceedsAnchor (2 * scale) values anchors := by
  rw [← Bool.not_eq_false, rises_eq_false_iff hscale, List.pairwise_iff_getElem]
  simp only [Tolerates, List.getElem_zipWith, List.length_zipWith, hlength, min_self]
  push Not
  constructor
  · rintro ⟨j, i, hj, hi, hji, hanchor, hpos, hlt⟩
    refine ⟨j, i, values[j], values[i], hji, ?_, List.getElem?_eq_getElem _,
      List.getElem?_eq_getElem _, hpos, mul_comm values[j] _ ▸ hlt⟩
    rw [List.getElem?_eq_getElem hj, hanchor]
  · rintro ⟨j, i, x, y, hji, hanchor, hx, hy, hpos, hlt⟩
    obtain ⟨hj, hanchor⟩ := List.getElem?_eq_some_iff.mp hanchor
    obtain ⟨_, rfl⟩ := List.getElem?_eq_some_iff.mp hx
    obtain ⟨hi, rfl⟩ := List.getElem?_eq_some_iff.mp hy
    exact ⟨j, i, hj, hlength ▸ hi, hji, hanchor, hpos, by rwa [mul_comm]⟩

/-- An anchor stays exceeded when further anchors are marked and values are
appended. -/
theorem ExceedsAnchor.append {limit : Rat} (h : ExceedsAnchor limit values anchors)
    (hanchors : ∀ j : Nat, anchors[j]? = some true → anchors'[j]? = some true) :
    ExceedsAnchor limit (values ++ more) anchors' := by
  have hkept {k : Nat} {v : Rat} (hv : values[k]? = some v) : (values ++ more)[k]? = some v := by
    rw [List.getElem?_append_left (List.getElem?_eq_some_iff.mp hv).1, hv]
  obtain ⟨j, i, x, y, hji, hanchor, hx, hy, hpos, hlt⟩ := h
  exact ⟨j, i, x, y, hji, hanchors j hanchor, hkept hx, hkept hy, hpos, hlt⟩

end ExceedsAnchor

/-! ## A lower scale -/

theorem lowestWith_pos {lowest : Option Rat} (hlowest : ∀ base ∈ lowest, 0 < base) (m : Mark Rat) :
    ∀ base ∈ lowestWith lowest m, 0 < base := by
  by_cases hm : m.anchor = true ∧ 0 < m.value
  · cases lowest with
    | none => simp [lowestWith, hm]
    | some base => simpa [lowestWith, hm] using hlowest
  · rwa [lowestWith_of_not_anchor hm]

/-- The lowest anchor is positive, so a lower limit is exceeded wherever a
higher one is. -/
theorem risesFrom_of_le {limit limit' : Rat} (hle : limit' ≤ limit) {lowest : Option Rat}
    (hlowest : ∀ base ∈ lowest, 0 < base) {ms : List (Mark Rat)}
    (h : risesFrom limit lowest ms = true) : risesFrom limit' lowest ms = true := by
  induction ms generalizing lowest with
  | nil => exact h
  | cons m ms ih =>
    rw [risesFrom, Bool.or_eq_true] at h ⊢
    refine h.imp (fun hexceeds => ?_) (ih (lowestWith_pos hlowest m))
    cases lowest with
    | none => exact hexceeds
    | some base =>
      have hbase : base * limit' ≤ base * limit :=
        mul_le_mul_of_nonneg_left hle (hlowest base rfl).le
      simp only [exceeds, Scalar.lt_rat, decide_eq_true_eq] at hexceeds ⊢
      exact hbase.trans_lt hexceeds

theorem rises_of_le {scale scale' : Rat} (hle : scale' ≤ scale) {ms : List (Mark Rat)}
    (h : rises scale ms = true) : rises scale' ms = true :=
  risesFrom_of_le (mul_le_mul_of_nonneg_left hle zero_le_two) (by simp) h

/-- The scan finds a rise exactly when some value exceeds the tolerated
multiple of a positive anchor before it; and a lower scale, further anchors
and further values leave a rise found. -/
theorem rises_iff_exceedsAnchor {values : List Rat} {anchors : List Bool} {scale : Rat}
    (hlength : values.length = anchors.length) (hscale : 0 < scale) :
    ∃ ms, marked values anchors = .ok ms ∧
      (rises scale ms = true ↔ ExceedsAnchor (2 * scale) values anchors) ∧
      ∀ scale' ≤ scale, ∀ (more : List Rat) (anchors' : List Bool),
        (values ++ more).length = anchors'.length →
        (∀ j : Nat, anchors[j]? = some true → anchors'[j]? = some true) →
        ∃ ms', marked (values ++ more) anchors' = .ok ms' ∧
          (rises scale ms = true → rises scale' ms' = true) := by
  refine ⟨_, if_pos hlength, rises_zipWith_iff hlength hscale.le, ?_⟩
  intro scale' hle more anchors' hlength' hanchors
  refine ⟨_, if_pos hlength', fun hrises => rises_of_le hle ?_⟩
  rw [rises_zipWith_iff hlength hscale.le] at hrises
  exact (rises_zipWith_iff hlength' hscale.le).mpr (hrises.append hanchors)

/-- A value above twice the second one is found, also at half the scale and
with a value after it that falls. -/
theorem rises_of_climb :
    ([4, 3, 5, 6, 13 / 2] : List Rat).length = [false, true, true, false, false].length ∧
      (0 : Rat) < 1 ∧
      ∃ ms, marked [(4 : Rat), 3, 5, 6, 13 / 2] [false, true, true, false, false] = .ok ms ∧
        rises 1 ms = true ∧
        ∃ ms', marked [(4 : Rat), 3, 5, 6, 13 / 2, 1] [true, true, true, false, false, true] =
            .ok ms' ∧ rises (1 / 2) ms' = true := by
  have hlength : ([4, 3, 5, 6, 13 / 2] : List Rat).length = [false, true, true, false, false].length :=
    rfl
  have hscale : (0 : Rat) < 1 := one_pos
  obtain ⟨ms, hms, hiff, hmono⟩ := rises_iff_exceedsAnchor hlength hscale
  have hrises : rises 1 ms = true :=
    hiff.mpr ⟨1, 4, 3, 13 / 2, by decide, rfl, rfl, rfl, by norm_num, by norm_num⟩
  have hanchors : ∀ j < 5, [false, true, true, false, false][j]? = some true →
      [true, true, true, false, false, true][j]? = some true := by decide
  obtain ⟨ms', hms', hkept⟩ :=
    hmono (1 / 2) (by norm_num) [1] [true, true, true, false, false, true] rfl
      fun j hj => hanchors j (List.getElem?_eq_some_iff.mp hj).1 hj
  exact ⟨hlength, hscale, ms, hms, hrises, ms', hms', hkept hrises⟩

end CostAudit.Growth
