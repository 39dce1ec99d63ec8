import Mathlib.Tactic.Push
import CostAudit.Growth
import CostAudit.Proofs.Growth.Anchor
import CostAudit.Proofs.Growth.Setup
import CostAudit.Proofs.Growth.Smoothing

/-!
# What the verdict looks at

A run is judged by its times per unit, net of the setup time, after they
were smoothed. Linear work has a constant time per unit, whichever of the
three ways the setup time was found: no time at all was taken, one size
was run, or two sizes were and the fit took the setup off. A constant
comes out of the smoothing as a constant, and a constant never rises.
-/

namespace CostAudit.Growth

/-- The times per unit of readings, net of their setup time. -/
def netPerUnit (rs : List (Reading Rat)) : List Rat :=
  rs.map (Reading.perUnit (setupTime rs))

theorem Reading.perUnit_eq (setup : Rat) (r : Reading Rat) :
    r.perUnit setup = max (r.time - setup) 0 / (max r.size 1 : Nat) := by
  simp [Reading.perUnit]

theorem netPerUnit_nonneg {rs : List (Reading Rat)} : ∀ x ∈ netPerUnit rs, 0 ≤ x := by
  simp only [netPerUnit, List.forall_mem_map, Reading.perUnit_eq]
  intro r _
  exact div_nonneg (le_max_right _ _) (Nat.cast_nonneg _)

theorem map_value_marks (rs : List (Reading Rat)) :
    (marks rs).map Mark.value = smooth (netPerUnit rs) := by
  refine List.ext_getElem ?_ fun i _ _ => by simp [marks, netPerUnit]
  simp [marks, netPerUnit, length_smooth]

/-- Readings are not dangerous when no smoothed value exceeds the tolerated
multiple of an earlier one, whatever the anchors. -/
theorem dangerous_eq_false {scale : Rat} (hscale : 0 ≤ scale) {rs : List (Reading Rat)}
    (h : (smooth (netPerUnit rs)).Pairwise fun x y => 0 < x → y ≤ x * (2 * scale)) :
    dangerous scale rs = false := by
  rw [← map_value_marks, List.pairwise_map] at h
  exact (rises_eq_false_iff hscale).mpr (h.imp fun hle _ hpos => hle hpos)

/-! ## Linear work -/

theorem dangerous_of_constant {scale v : Rat} (hscale : 1 / 2 ≤ scale) {rs : List (Reading Rat)}
    (h : ∀ r ∈ rs, r.perUnit (setupTime rs) = v) : dangerous scale rs = false := by
  have hnet : netPerUnit rs = List.replicate rs.length v :=
    List.eq_replicate_iff.mpr ⟨by simp [netPerUnit], by simpa [netPerUnit] using h⟩
  refine dangerous_eq_false (by linarith) ?_
  rw [hnet, smooth_replicate, List.pairwise_replicate]
  exact .inr fun hpos => le_mul_of_one_le_right hpos.le (by linarith)

/-- The readings of work whose time is a setup and a rate for each unit. -/
def line (a b : Rat) (sizes : List Nat) : List (Reading Rat) :=
  sizes.map fun n : Nat => ⟨a + b * n, n⟩

section Line

variable {a b : Rat} {sizes : List Nat}

theorem readings_line : readings (sizes.map fun n : Nat => a + b * n) sizes = .ok (line a b sizes) := by
  simp [readings, sideBySide, line, List.zipWith_map_left, List.zipWith_self]

theorem setupTime_line (ha : 0 ≤ a) (hb : 0 ≤ b)
    (h : hasTwoSizes (fitted (line a b sizes)) = true) : setupTime (line a b sizes) = a := by
  refine setupTime_of_line (b := b) ha ?_ ?_ h <;> rw [line, List.forall_mem_map]
  · exact fun n _ => rfl
  · exact fun n _ => le_add_of_nonneg_right (mul_nonneg hb n.cast_nonneg)

/-- A line that has one positive time has only positive ones, so the fit
leaves none of them out. -/
theorem fitted_line (ha : 0 ≤ a) (hb : 0 ≤ b) (hsizes : ∀ n ∈ sizes, 1 ≤ n)
    (hpos : ∃ n ∈ sizes, 0 < a + b * n) : fitted (line a b sizes) = line a b sizes := by
  have hab : 0 < a ∨ 0 < b := by
    by_contra! h
    obtain ⟨n, -, hn⟩ := hpos
    rw [le_antisymm h.1 ha, le_antisymm h.2 hb] at hn
    simp at hn
  rw [fitted, List.filter_eq_self, line, List.forall_mem_map]
  intro n hn
  have hn1 : (0 : Rat) < n := by exact_mod_cast hsizes n hn
  rw [Reading.informative_iff]
  rcases hab with ha' | hb'
  · exact add_pos_of_pos_of_nonneg ha' (mul_nonneg hb hn1.le)
  · exact add_pos_of_nonneg_of_pos ha (mul_pos hb' hn1)

theorem fitted_line_eq_nil (hzero : ∀ n ∈ sizes, a + b * n ≤ 0) :
    fitted (line a b sizes) = [] := by
  rw [fitted, List.filter_eq_nil_iff, line, List.forall_mem_map]
  intro n hn
  rw [Reading.informative_iff]
  exact (hzero n hn).not_gt

/-- The fit takes the setup off, and the rate is left. -/
theorem perUnit_line_of_hasTwoSizes (ha : 0 ≤ a) (hb : 0 ≤ b) (hsizes : ∀ n ∈ sizes, 1 ≤ n)
    (h : hasTwoSizes (fitted (line a b sizes)) = true) :
    ∀ r ∈ line a b sizes, r.perUnit (setupTime (line a b sizes)) = b := by
  rw [setupTime_line ha hb h, line, List.forall_mem_map]
  intro n hn
  have hn0 : (n : Rat) ≠ 0 := Nat.cast_ne_zero.mpr (Nat.one_le_iff_ne_zero.mp (hsizes n hn))
  rw [Reading.perUnit_eq, add_sub_cancel_left, max_eq_left (mul_nonneg hb n.cast_nonneg),
    max_eq_left (hsizes n hn), mul_div_cancel_right₀ b hn0]

theorem perUnit_line_of_nonpos (hzero : ∀ n ∈ sizes, a + b * n ≤ 0) :
    ∀ r ∈ line a b sizes, r.perUnit (setupTime (line a b sizes)) = 0 := by
  have hnone : hasTwoSizes (fitted (line a b sizes)) = false := by
    rw [fitted_line_eq_nil hzero]
    rfl
  rw [setupTime_of_not_hasTwoSizes hnone, line, List.forall_mem_map]
  intro n hn
  rw [Reading.perUnit_eq, sub_zero, max_eq_right (hzero n hn), zero_div]

theorem constant_perUnit_line (ha : 0 ≤ a) (hb : 0 ≤ b) (hsizes : ∀ n ∈ sizes, 1 ≤ n) :
    ∃ v, ∀ r ∈ line a b sizes, r.perUnit (setupTime (line a b sizes)) = v := by
  by_cases hpos : ∃ n ∈ sizes, 0 < a + b * n
  · have hall := fitted_line ha hb hsizes hpos
    by_cases htwo : hasTwoSizes (line a b sizes) = true
    · exact ⟨b, perUnit_line_of_hasTwoSizes ha hb hsizes (hall.symm ▸ htwo)⟩
    · -- One size: all readings are the same.
      obtain ⟨n, hn, -⟩ := hpos
      refine ⟨Reading.perUnit (setupTime (line a b sizes)) ⟨a + b * n, n⟩, ?_⟩
      have hmem (k) (hk : k ∈ sizes) : (⟨a + b * k, k⟩ : Reading Rat) ∈ line a b sizes :=
        List.mem_map_of_mem hk
      rw [hasTwoSizes_iff] at htwo
      push Not at htwo
      refine List.forall_mem_map.mpr fun k hk => ?_
      obtain rfl : k = n := htwo _ (hmem k hk) _ (hmem n hn)
      rfl
  · push Not at hpos
    exact ⟨0, perUnit_line_of_nonpos hpos⟩

/-- Linear work is never dangerous, whatever its setup time; and the setup
time of linear work that shows at two sizes is found exactly. -/
theorem linear_not_dangerous {scale : Rat} (ha : 0 ≤ a) (hb : 0 ≤ b) (hscale : 1 / 2 ≤ scale)
    (hsizes : ∀ n ∈ sizes, 1 ≤ n) :
    ∃ rs, readings (sizes.map fun n : Nat => a + b * n) sizes = .ok rs ∧
      dangerous scale rs = false ∧
      ((∃ m ∈ sizes, ∃ n ∈ sizes, m ≠ n) → (∃ n ∈ sizes, 0 < a + b * n) →
        setupTime rs = a) := by
  refine ⟨line a b sizes, readings_line, ?_, ?_⟩
  · obtain ⟨v, hv⟩ := constant_perUnit_line ha hb hsizes
    exact dangerous_of_constant hscale hv
  · rintro ⟨m, hm, n, hn, hne⟩ hpos
    refine setupTime_line ha hb ?_
    rw [fitted_line ha hb hsizes hpos, hasTwoSizes_iff]
    exact ⟨_, List.mem_map_of_mem hm, _, List.mem_map_of_mem hn, hne⟩

theorem linear_not_dangerous_of_doublings :
    (∀ n ∈ [1, 2, 4, 8, 16, 32, 64], 1 ≤ n) ∧
      ∃ rs, readings ([1, 2, 4, 8, 16, 32, 64].map fun n : Nat => (5000 : Rat) + 3 * n)
          [1, 2, 4, 8, 16, 32, 64] = .ok rs ∧
        dangerous 1 rs = false ∧ setupTime rs = 5000 := by
  refine ⟨by decide, ?_⟩
  have ha : (0 : Rat) ≤ 5000 := by norm_num
  have hb : (0 : Rat) ≤ 3 := by norm_num
  have hscale : (1 / 2 : Rat) ≤ 1 := by norm_num
  have hsizes : ∀ n ∈ [1, 2, 4, 8, 16, 32, 64], 1 ≤ n := by decide
  obtain ⟨rs, hrs, hverdict, hsetup⟩ := linear_not_dangerous ha hb hscale hsizes
  exact ⟨rs, hrs, hverdict, hsetup ⟨1, by decide, 2, by decide, by decide⟩
    ⟨1, by decide, by norm_num⟩⟩

end Line

end CostAudit.Growth
