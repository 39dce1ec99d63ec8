import Mathlib.Order.Monotone.Basic
import CostAudit.Proofs.Growth.Ringing
import CostAudit.Proofs.Growth.Verdict

/-!
# A fall is hardly ever taken for a rise

Times per unit that never increase can still be flagged: a steep drop
rings in the smoothed series, and past an undershoot the values come back
to more than twice of it. It takes a fall to less than a seventh, though.

A series that never increases is its last value and drops before it, and
smoothing is linear. The reflection of a series with one drop has two more
where the drop is less than seven places from an end, its mirror images.
In a long series one end at most is that near, and the bounds on the wake
of a drop are good for both drops. The few short series in which a drop
has both its mirror images are checked one by one.
-/

namespace CostAudit.Growth

open Coefficients

/-! ## One drop and its mirror images -/

section Drop

variable {n m i j : Nat}

/-- A drop read from the right is what a drop at the mirror place lacks of
one. -/
theorem dropAt_sub (hm : 0 < m) (k t : Nat) : dropAt m (k - t) = 1 - dropAt (k + 1 - m) t := by
  rcases Nat.lt_or_ge t (k + 1 - m) with h | h
  · rw [dropAt_of_lt h, dropAt_of_le (by omega), sub_self]
  · rw [dropAt_of_le h, dropAt_of_lt (by omega), sub_zero]

theorem extendedAt_dropAt (hm : 0 < m) (hmn : m < n) (hn : padding < n) (t : Nat) :
    extendedAt n (dropAt m) t =
      dropAt (7 - m) t + dropAt (m + 6) t + dropAt (2 * n + 5 - m) t - 1 := by
  have hpadding : padding = 6 := rfl
  rcases Nat.lt_or_ge t padding with hleft | hleft
  · have hmain : dropAt (m + 6) t = 1 := dropAt_of_lt (by omega)
    have hbehind : dropAt (2 * n + 5 - m) t = 1 := dropAt_of_lt (by omega)
    rw [extendedAt_of_lt hleft, dropAt_of_lt hm, dropAt_sub hm, hmain, hbehind, hpadding]
    ring
  have hbefore : dropAt (7 - m) t = 0 := dropAt_of_le (by omega)
  rcases Nat.lt_or_ge t (n + padding) with hright | hright
  · obtain ⟨i, rfl⟩ := Nat.exists_eq_add_of_le hleft
    have hbehind : dropAt (2 * n + 5 - m) (padding + i) = 1 := dropAt_of_lt (by omega)
    have hmain : dropAt (m + 6) (padding + i) = dropAt m i := by
      simp only [dropAt, hpadding, Nat.add_comm 6 i, Nat.add_lt_add_iff_right]
    rw [extendedAt_padding_add (by omega), hbefore, hmain, hbehind]
    ring
  · have hmain : dropAt (m + 6) t = 0 := dropAt_of_le (by omega)
    have hlast : dropAt m (n - 1) = 0 := dropAt_of_le (by omega)
    rw [extendedAt, if_neg (by omega), if_neg (by omega), hlast, dropAt_sub hm, hbefore, hmain]
    ring

theorem smoothed_dropAt (hm : 0 < m) (hmn : m < n) (hn : padding < n) (i : Nat) :
    smoothed n (dropAt m) i =
      dropImage n (7 - m) i + dropImage n (m + 6) i + dropImage n (2 * n + 5 - m) i -
        smoothGain := by
  have hsum : extendedAt n (dropAt m) = fun t =>
      1 * (1 * dropAt (7 - m) t + 1 * dropAt (m + 6) t) +
        1 * (1 * dropAt (2 * n + 5 - m) t + -1 * 1) := by
    funext t
    rw [extendedAt_dropAt hm hmn hn]
    ring
  have hone : lowPass.bothWaysAt (n + 2 * padding) (fun _ => 1) (i + padding) = smoothGain := by
    rw [lowPass.bothWaysAt_of_constant lowPass_settles (by omega) (fun _ _ => rfl), mul_one]
    rfl
  rw [smoothed, hsum, bothWaysAt_blend, bothWaysAt_blend, bothWaysAt_blend, hone]
  simp only [dropImage]
  ring

/-- By how much a smoothed drop rises past twice of an earlier value when
it has one mirror image at most. -/
theorem smoothed_dropAt_le_of_far (hm : 0 < m) (hmn : m < n) (hn : padding < n)
    (hfar : m + 7 ≤ n ∨ 7 ≤ m) (hij : i < j) (hj : j < n) :
    smoothed n (dropAt m) j ≤ 2 * smoothed n (dropAt m) i + 0.166 := by
  have hpadding : padding = 6 := rfl
  have hsum : smoothed n (dropAt m) j - 2 * smoothed n (dropAt m) i =
      dropRise n (7 - m) i j + dropRise n (m + 6) i j + dropRise n (2 * n + 5 - m) i j +
        smoothGain := by
    rw [smoothed_dropAt hm hmn hn, smoothed_dropAt hm hmn hn]
    simp only [dropRise]
    ring
  have hbefore (h : 7 ≤ m) : dropRise n (7 - m) i j = 0 := by
    rw [Nat.sub_eq_zero_of_le h, dropRise, dropImage_zero (by omega), dropImage_zero (by omega)]
    norm_num
  have hbehind (h : m + 7 ≤ n) : dropRise n (2 * n + 5 - m) i j = -smoothGain := by
    rw [dropRise, dropImage_past (by omega) (by omega), dropImage_past (by omega) (by omega)]
    ring
  have hdrop : dropRise n (m + 6) i j ≤ 0.082 := dropRise_le (by omega) (by omega) hij hj
  rcases Nat.lt_or_ge m 7 with hstart | hstart
  · -- Near the start of the series, with a mirror image before it.
    have hmirror : dropRise n (7 - m) i j ≤ 0.082 := dropRise_le (by omega) (by omega) hij hj
    linarith [hbehind (by omega)]
  rcases Nat.lt_or_ge n (m + 7) with hend | hend
  · -- Near the end of the series, with a mirror image behind it.
    have hnear : dropRise n (m + 6) i j ≤ 0.0558 :=
      dropRise_le_of_near (by omega) (by omega) hij hj (by omega)
    have hmirror : dropRise n (2 * n + 5 - m) i j ≤ 0.0883 - smoothGain :=
      dropRise_le_of_behind (by omega) (by omega) hij hj
    linarith [hbefore hstart]
  · linarith [hbefore hstart, hbehind hend]

/-- The drops that have both mirror images, in the series short enough. -/
theorem pairwise_smooth_dropAt : ∀ m < 7, ∀ n < m + 7, padding < n →
    (smooth ((List.range n).map (dropAt m))).Pairwise fun x y => y ≤ 2 * x + 0.166 := by
  decide +kernel

theorem smoothed_dropAt_le_of_short (hn : padding < n) (hleft : m < 7) (hright : n < m + 7)
    (hij : i < j) (hj : j < n) :
    smoothed n (dropAt m) j ≤ 2 * smoothed n (dropAt m) i + 0.166 := by
  have hpair := pairwise_smooth_dropAt m hleft n hright hn
  rw [smooth_map_range hn, pairwise_map_range] at hpair
  exact hpair i j hij hj

theorem smoothed_dropAt_le (hm : 0 < m) (hmn : m < n) (hn : padding < n) (hij : i < j)
    (hj : j < n) : smoothed n (dropAt m) j ≤ 2 * smoothed n (dropAt m) i + 0.166 := by
  by_cases hfar : m + 7 ≤ n ∨ 7 ≤ m
  · exact smoothed_dropAt_le_of_far hm hmn hn hfar hij hj
  · exact smoothed_dropAt_le_of_short hn (by omega) (by omega) hij hj

end Drop

/-! ## A series of drops -/

section Falling

variable {f : Nat → Rat} {n i j : Nat}

/-- A signal flattened up to a place is flat one place further, and the
drop between the two. -/
theorem flattened_eq (f : Nat → Rat) (m : Nat) :
    (fun t => f (max t m)) =
      fun t => 1 * f (max t (m + 1)) + (f m - f (m + 1)) * dropAt (m + 1) t := by
  funext t
  rcases Nat.lt_or_ge t (m + 1) with h | h
  · rw [dropAt_of_lt h, Nat.max_eq_right (Nat.lt_succ_iff.mp h), Nat.max_eq_right h.le]
    ring
  · rw [dropAt_of_le h, Nat.max_eq_left (Nat.le_of_succ_le h), Nat.max_eq_left h]
    ring

/-- By how much a falling signal can rise when it is smoothed. Flattened
from its end it is a constant; each place the flattening is taken back
brings in one drop. -/
theorem smoothed_le_of_antitone (hf : Antitone f) (hlast : ∀ t, n ≤ t + 1 → f t = f (n - 1))
    (hn : padding < n) (hij : i < j) (hj : j < n) :
    smoothed n f j ≤
      2 * smoothed n f i - smoothGain * f (n - 1) + 0.166 * (f 0 - f (n - 1)) := by
  have hflat (d : Nat) : ∀ m, m + d = n - 1 →
      smoothed n (fun t => f (max t m)) j ≤
        2 * smoothed n (fun t => f (max t m)) i - smoothGain * f (n - 1) +
          0.166 * (f m - f (n - 1)) := by
    induction d with
    | zero =>
      rintro m rfl
      have hconstant : (fun t => f (max t (n - 1))) = fun _ => f (n - 1) :=
        funext fun t => hlast _ (by omega)
      simp only [hconstant, smoothed_constant]
      linarith
    | succ d ih =>
      intro m hm
      have hrest := ih (m + 1) (by omega)
      have hdrop := smoothed_dropAt_le (m := m + 1) (by omega) (by omega) hn hij hj
      have hheight := sub_nonneg.mpr (hf m.le_succ)
      have hscaled := mul_le_mul_of_nonneg_left hdrop hheight
      rw [flattened_eq, smoothed_blend, smoothed_blend]
      linarith
  have hwhole := hflat (n - 1) 0 (by omega)
  simpa only [Nat.zero_max, Nat.max_zero] using hwhole

end Falling

/-! ## The verdict on a fall -/

/-- The signal of a list that goes on with its last value. -/
def signal (xs : List Rat) (t : Nat) : Rat := xs.getD (min t (xs.length - 1)) 0

section Signal

variable {xs : List Rat}

theorem map_signal (xs : List Rat) : (List.range xs.length).map (signal xs) = xs := by
  conv_rhs => rw [eq_map_range xs]
  refine List.map_congr_left fun t ht => ?_
  have ht' := List.mem_range.mp ht
  rw [signal, Nat.min_eq_left (by omega)]

theorem signal_mem (hxs : xs ≠ []) (t : Nat) : signal xs t ∈ xs := by
  have hlen := List.length_pos_iff.mpr hxs
  have hlt : min t (xs.length - 1) < xs.length := by omega
  simp only [signal, List.getD_eq_getElem?_getD, List.getElem?_eq_getElem hlt, Option.getD_some]
  exact List.getElem_mem hlt

theorem antitone_signal (hxs : xs ≠ []) (h : xs.Pairwise (· ≥ ·)) : Antitone (signal xs) := by
  intro s t hst
  have hlen := List.length_pos_iff.mpr hxs
  have hs : min s (xs.length - 1) < xs.length := by omega
  have ht : min t (xs.length - 1) < xs.length := by omega
  simp only [signal, List.getD_eq_getElem?_getD, List.getElem?_eq_getElem hs,
    List.getElem?_eq_getElem ht, Option.getD_some]
  rcases Nat.lt_or_ge (min s (xs.length - 1)) (min t (xs.length - 1)) with hlt | hge
  · exact List.pairwise_iff_getElem.mp h _ _ hs ht hlt
  · have heq : min s (xs.length - 1) = min t (xs.length - 1) := by omega
    simp only [heq, le_refl]

end Signal

/-- A series that never increases comes out of the smoothing without a
value above twice of an earlier one, when no value is above seven times
another. -/
theorem pairwise_smooth_of_falling {xs : List Rat} (hfall : xs.Pairwise (· ≥ ·))
    (hnonneg : ∀ x ∈ xs, 0 ≤ x)
    (hmild : xs.length ≤ padding ∨ ∀ x ∈ xs, ∀ y ∈ xs, x ≤ 7 * y) :
    (smooth xs).Pairwise fun x y => 0 < x → y ≤ 2 * x := by
  rcases Nat.lt_or_ge padding xs.length with hn | hshort
  · have hne : xs ≠ [] := List.ne_nil_of_length_pos (by omega)
    have hlast : ∀ t, xs.length ≤ t + 1 → signal xs t = signal xs (xs.length - 1) := by
      intro t ht
      rw [signal, signal, Nat.min_self, Nat.min_eq_right (by omega)]
    have hseven : signal xs 0 ≤ 7 * signal xs (xs.length - 1) :=
      hmild.resolve_left hn.not_ge _ (signal_mem hne 0) _ (signal_mem hne _)
    have hlow : 0 ≤ signal xs (xs.length - 1) := hnonneg _ (signal_mem hne _)
    have hkept := mul_le_mul_of_nonneg_right le_smoothGain hlow
    rw [← map_signal xs, smooth_map_range hn, pairwise_map_range]
    intro i j hij hj _
    have hrise := smoothed_le_of_antitone (antitone_signal hne hfall) hlast hn hij hj
    linarith
  · rw [smooth_of_length_le hshort]
    exact hfall.imp fun hle hpos => by linarith

/-- Readings whose times per unit never increase are not dangerous, as long
as no time per unit is above seven times another; and in any case when
they are too few to be smoothed. -/
theorem falling_not_dangerous {rs : List (Reading Rat)} {scale : Rat}
    (hfall : (netPerUnit rs).Pairwise (· ≥ ·))
    (hmild : rs.length ≤ padding ∨ ∀ x ∈ netPerUnit rs, ∀ y ∈ netPerUnit rs, x ≤ 7 * y)
    (hscale : 1 ≤ scale) : dangerous scale rs = false := by
  have hlength : (netPerUnit rs).length = rs.length := List.length_map ..
  rw [← hlength] at hmild
  refine dangerous_eq_false (by linarith) ?_
  refine (pairwise_smooth_of_falling hfall netPerUnit_nonneg hmild).imp fun hle hpos => ?_
  have hscaled := mul_le_mul_of_nonneg_left hscale hpos.le
  linarith [hle hpos]

/-- Eleven readings at one size, of which the first took longer. -/
def slowStart (time : Rat) : List (Reading Rat) := ⟨time, 16⟩ :: List.replicate 10 ⟨16, 16⟩

theorem netPerUnit_slowStart {time : Rat} (h : 0 ≤ time) :
    netPerUnit (slowStart time) = time / 16 :: List.replicate 10 1 := by
  have hsetup : setupTime (slowStart time) = 0 := by
    have hsize : ∀ r ∈ fitted (slowStart time), r.size = 16 := by
      intro r hr
      have hmem : r = ⟨time, 16⟩ ∨ r = ⟨16, 16⟩ := by
        simpa [slowStart] using (List.mem_filter.mp hr).1
      rcases hmem with rfl | rfl <;> rfl
    refine setupTime_of_not_hasTwoSizes (Bool.eq_false_iff.mpr fun htwo => ?_)
    obtain ⟨x, hx, y, hy, hne⟩ := hasTwoSizes_iff.mp htwo
    exact hne ((hsize x hx).trans (hsize y hy).symm)
  rw [netPerUnit, hsetup]
  norm_num [slowStart, Reading.perUnit_eq, max_eq_left h]

theorem falling_slowStart {time : Rat} (h : 16 ≤ time) :
    (netPerUnit (slowStart time)).Pairwise (· ≥ ·) := by
  rw [netPerUnit_slowStart (by linarith), List.pairwise_cons, List.pairwise_replicate]
  refine ⟨fun x hx => ?_, .inr le_rfl⟩
  rw [List.eq_of_mem_replicate hx]
  linarith

theorem falling_not_dangerous_of_seventh :
    (netPerUnit (slowStart 112)).Pairwise (· ≥ ·) ∧
      (∀ x ∈ netPerUnit (slowStart 112), ∀ y ∈ netPerUnit (slowStart 112), x ≤ 7 * y) ∧
        dangerous 1 (slowStart 112) = false := by
  have hfall : (netPerUnit (slowStart 112)).Pairwise (· ≥ ·) := falling_slowStart (by norm_num)
  have hmild : ∀ x ∈ netPerUnit (slowStart 112), ∀ y ∈ netPerUnit (slowStart 112), x ≤ 7 * y := by
    rw [netPerUnit_slowStart (by norm_num)]
    norm_num
  exact ⟨hfall, hmild, falling_not_dangerous hfall (.inr hmild) le_rfl⟩

/-- A fall to an eighth is flagged: the undershoot behind the drop is an
anchor, and the level after it is more than twice as high. -/
theorem exists_falling_dangerous :
    ¬ ∀ (rs : List (Reading Rat)) (scale : Rat), (∀ r ∈ rs, 1 ≤ r.size) →
      rs.Pairwise (fun r r' => r.size ≤ r'.size) → (∀ r ∈ rs, 0 ≤ r.time) →
      (netPerUnit rs).Pairwise (· ≥ ·) → 1 ≤ scale → dangerous scale rs = false := by
  intro h
  have hflagged : dangerous 1 (slowStart 128) = true := by decide +kernel
  have htimes : ∀ r ∈ slowStart 128, 0 ≤ r.time := by norm_num [slowStart]
  have hquiet := h (slowStart 128) 1 (by simp [slowStart]) (by simp [slowStart]) htimes
    (falling_slowStart (by norm_num)) le_rfl
  exact Bool.false_ne_true (hquiet.symm.trans hflagged)

end CostAudit.Growth
