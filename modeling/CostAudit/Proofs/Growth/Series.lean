import CostAudit.Proofs.Growth.Smoothing

/-!
# Smoothing a whole series

What smoothing does to a series as a list. Whatever the numbers are, a
series keeps its length, and all that is read of it is there: six values
next to each end for the reflections, and, of what comes through the filter,
as many values as the series has (`ReadsWithin`). Over the fractions a
series is a signal, so smoothing is linear on series (`smooth_blend`), and a
constant series comes out with the square of the gain.
-/

namespace CostAudit.Growth

/-! ## Places -/

section Places

variable {α : Type} [Scalar α] {xs : List α}

/-- A reflection takes each value from its distance to the end. -/
theorem getElem?_reflection {x : α} (hx : xs[0]? = some x) {i : Nat} (hi : i < padding) :
    (reflection xs)[i]? = xs[i + 1]?.map fun y => Scalar.ofNat 2 * x - y := by
  cases xs with
  | nil => cases hx
  | cons first rest =>
    obtain rfl : first = x := Option.some.inj hx
    rw [reflection, List.getElem?_map, List.getElem?_take_of_lt hi, List.getElem?_cons_succ]

theorem getElem?_extended_front (h : padding < xs.length) {i : Nat} (hi : i < padding) :
    (extended xs)[padding - 1 - i]? = (reflection xs)[i]? := by
  have hlength := length_reflection h
  have hplace : padding - 1 - i < (reflection xs).reverse.length := by
    rw [List.length_reverse, hlength]
    omega
  rw [extended, List.append_assoc, List.getElem?_append_left hplace,
    List.getElem?_reverse (by omega), hlength]
  congr 1
  omega

theorem getElem?_extended_series (h : padding < xs.length) {i : Nat} (hi : i < xs.length) :
    (extended xs)[padding + i]? = xs[i]? := by
  have hlength : (reflection xs).reverse.length = padding := by
    rw [List.length_reverse, length_reflection h]
  rw [extended, List.append_assoc, List.getElem?_append_right (by omega), hlength,
    Nat.add_sub_cancel_left, List.getElem?_append_left hi]

theorem getElem?_extended_back (h : padding < xs.length) (i : Nat) :
    (extended xs)[padding + xs.length + i]? = (reflection xs.reverse)[i]? := by
  have hlength : ((reflection xs).reverse ++ xs).length = padding + xs.length := by
    rw [List.length_append, List.length_reverse, length_reflection h]
  rw [extended, List.getElem?_append_right (by omega), hlength, Nat.add_sub_cancel_left]

/-- What is read of a series that smoothing does not leave alone: every
place lies inside the list that it is looked up in. -/
structure ReadsWithin (xs : List α) : Prop where
  /-- In front of the series stand the values after the first one,
  reflected, the nearest last. -/
  front : ∀ i < padding, ∃ first value, xs[0]? = some first ∧ xs[i + 1]? = some value ∧
    (extended xs)[padding - 1 - i]? = some (Scalar.ofNat 2 * first - value)
  series : ∀ i < xs.length, ∃ value, xs[i]? = some value ∧
    (extended xs)[padding + i]? = some value
  /-- Behind the series stand the values before the last one, reflected,
  the nearest first. -/
  back : ∀ i < padding, i + 1 ≤ xs.length - 1 ∧ ∃ last value, xs[xs.length - 1]? = some last ∧
    xs[xs.length - 1 - (i + 1)]? = some value ∧
    (extended xs)[padding + xs.length + i]? = some (Scalar.ofNat 2 * last - value)
  /-- What is cut out of the filtered series is there. -/
  cut : padding + xs.length ≤ (bothWays .lowPass (extended xs)).length ∧
    ∀ i < xs.length, ∃ value, (bothWays .lowPass (extended xs))[padding + i]? = some value ∧
      (smooth xs)[i]? = some value

theorem readsWithin_of_length_gt (h : padding < xs.length) : ReadsWithin xs := by
  have hcut : padding + xs.length ≤ (bothWays .lowPass (extended xs)).length := by
    rw [length_bothWays, length_extended h]
    omega
  refine ⟨fun i hi => ?_, fun i hi => ?_, fun i hi => ⟨by omega, ?_⟩, hcut, fun i hi => ?_⟩
  · have hfirst : xs[0]? = some xs[0] := List.getElem?_eq_getElem (by omega)
    have hvalue : xs[i + 1]? = some xs[i + 1] := List.getElem?_eq_getElem (by omega)
    refine ⟨_, _, hfirst, hvalue, ?_⟩
    rw [getElem?_extended_front h hi, getElem?_reflection hfirst hi, hvalue, Option.map_some]
  · have hvalue : xs[i]? = some xs[i] := List.getElem?_eq_getElem hi
    exact ⟨_, hvalue, (getElem?_extended_series h hi).trans hvalue⟩
  · have hlast : xs[xs.length - 1]? = some xs[xs.length - 1] := List.getElem?_eq_getElem (by omega)
    have hvalue : xs[xs.length - 1 - (i + 1)]? = some xs[xs.length - 1 - (i + 1)] :=
      List.getElem?_eq_getElem (by omega)
    refine ⟨_, _, hlast, hvalue, ?_⟩
    have hfirst : xs.reverse[0]? = some xs[xs.length - 1] := by
      rw [List.getElem?_reverse (by omega), Nat.sub_zero, hlast]
    rw [getElem?_extended_back h, getElem?_reflection hfirst hi, List.getElem?_reverse (by omega),
      hvalue, Option.map_some]
  · have hplace : padding + i < (bothWays .lowPass (extended xs)).length := by omega
    refine ⟨_, List.getElem?_eq_getElem hplace, ?_⟩
    rw [smooth_of_length_gt h, List.getElem?_take_of_lt hi, List.getElem?_drop,
      List.getElem?_eq_getElem hplace]

end Places

/-! ## Linearity -/

/-- A linear combination of two series of one length. -/
def blend (p q : Rat) : List Rat → List Rat → List Rat :=
  List.zipWith fun x y => p * x + q * y

theorem length_blend {p q : Rat} {xs ys : List Rat} (h : xs.length = ys.length) :
    (blend p q xs ys).length = xs.length := by
  rw [blend, List.length_zipWith, ← h, Nat.min_self]

theorem blend_map_range (p q : Rat) (f g : Nat → Rat) (n : Nat) :
    blend p q ((List.range n).map f) ((List.range n).map g) =
      (List.range n).map fun i => p * f i + q * g i := by
  rw [blend, List.zipWith_map, List.zipWith_self]

/-- A combination of two series is smoothed to the combination of what they
are smoothed to. -/
theorem smooth_blend (p q : Rat) {xs ys : List Rat} (h : xs.length = ys.length) :
    smooth (blend p q xs ys) = blend p q (smooth xs) (smooth ys) := by
  rcases Nat.lt_or_ge padding xs.length with hn | hshort
  · have hys : ys = (List.range xs.length).map fun i => ys.getD i 0 := by
      rw [h]
      exact eq_map_range ys
    rw [eq_map_range xs, hys, blend_map_range, smooth_map_range hn, smooth_map_range hn,
      smooth_map_range hn, blend_map_range]
    exact List.map_congr_left fun i _ => smoothed_blend p q _ _ _ i
  · rw [smooth_of_length_le ((length_blend h).trans_le hshort), smooth_of_length_le hshort,
      smooth_of_length_le (h ▸ hshort)]

/-- **Smoothing series.** Whatever the numbers are, a series keeps its
length, nothing is read outside of it, and a series of less than seven
values is left alone. Over the fractions smoothing is linear, and a constant
series of at least seven values comes out with the square of the gain. -/
theorem smooth_linear_keeping_constants :
    (∀ (α : Type) [Scalar α] (xs : List α), (smooth xs).length = xs.length ∧
      (7 ≤ xs.length → ReadsWithin xs) ∧ (xs.length < 7 → smooth xs = xs)) ∧
    (∀ (p q : Rat) (xs ys : List Rat), xs.length = ys.length →
      smooth (blend p q xs ys) = blend p q (smooth xs) (smooth ys)) ∧
    ∀ (n : Nat) (v : Rat), 7 ≤ n →
      let k : Rat := Coefficients.lowPass.constantGain
      smooth (List.replicate n v) = List.replicate n (k * k * v) := by
  have hpadding : padding = 6 := rfl
  refine ⟨fun α _ xs => ⟨length_smooth xs, fun h => ?_, fun h => ?_⟩,
    fun p q xs ys => smooth_blend p q, fun n v hn => ?_⟩
  · exact readsWithin_of_length_gt (by omega)
  · exact smooth_of_length_le (by omega)
  · rw [smooth_replicate, if_neg (by omega)]
    rfl

/-- Seven values that rise and seven that are the same, three times the ones
less twice the others. -/
theorem smooth_of_risingLessConstant :
    let rising : List Rat := [0, 1, 2, 3, 4, 5, 6]
    let k : Rat := Coefficients.lowPass.constantGain
    rising.length = (List.replicate 7 (5 : Rat)).length ∧ 7 ≤ rising.length ∧
      ReadsWithin rising ∧ smooth rising ≠ rising ∧
      smooth (blend 3 (-2) rising (List.replicate 7 5)) =
        blend 3 (-2) (smooth rising) (List.replicate 7 (k * k * 5)) := by
  intro rising k
  obtain ⟨hall, hblend, hconstant⟩ := smooth_linear_keeping_constants
  have hlength : rising.length = (List.replicate 7 (5 : Rat)).length := rfl
  have hseven : 7 ≤ rising.length := by decide
  refine ⟨hlength, hseven, (hall Rat rising).2.1 hseven, by decide +kernel, ?_⟩
  rw [hblend 3 (-2) _ _ hlength, hconstant 7 5 le_rfl]

end CostAudit.Growth
