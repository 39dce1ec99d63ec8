import Mathlib.Tactic.LinearCombination
import CostAudit.Growth.Smoothing
import CostAudit.Proofs.Scalar

/-!
# Smoothing is linear

A list of values is read as a signal, a function of the position, cut off
at a length. Over signals each stage of the smoothing has a closed form:
the memory of a filter is a recursion on the position, turning a signal
around is a change of position, and the extension is three formulas laid
side by side. Every stage is linear in the signal, and a constant signal
goes through with the square of the gain, because the settled memory is
the one a constant keeps.
-/

namespace CostAudit.Growth

/-! ## Lengths

Whatever the numbers are, a filter gives out as many values as go in, and a
series that is not left alone is long enough for both its reflections. -/

section Lengths

variable {α : Type} [Scalar α]

theorem Coefficients.length_feed (c : Coefficients α) (m : Memory α) (xs : List α) :
    (c.feed m xs).1.length = xs.length := by
  induction xs generalizing m with
  | nil => rfl
  | cons x xs ih => simp only [feed, List.length_cons, ih]

theorem length_bothWays (c : Coefficients α) (xs : List α) :
    (bothWays c xs).length = xs.length := by
  simp only [bothWays, Coefficients.pass, List.length_reverse, Coefficients.length_feed]

theorem length_reflection {xs : List α} (h : padding < xs.length) :
    (reflection xs).length = padding := by
  cases xs with
  | nil => cases h
  | cons x xs =>
    rw [reflection, List.length_map, List.length_take]
    exact Nat.min_eq_left (Nat.le_of_lt_succ h)

theorem length_extended {xs : List α} (h : padding < xs.length) :
    (extended xs).length = xs.length + 2 * padding := by
  have hback : (reflection xs.reverse).length = padding :=
    length_reflection (by rwa [List.length_reverse])
  rw [extended, List.length_append, List.length_append, List.length_reverse, length_reflection h,
    hback]
  omega

theorem smooth_of_length_le {xs : List α} (h : xs.length ≤ padding) : smooth xs = xs :=
  if_pos h

theorem smooth_of_length_gt {xs : List α} (h : padding < xs.length) :
    smooth xs = ((bothWays .lowPass (extended xs)).drop padding).take xs.length :=
  if_neg (Nat.not_le_of_lt h)

theorem length_smooth (xs : List α) : (smooth xs).length = xs.length := by
  rcases Nat.lt_or_ge padding xs.length with h | h
  · rw [smooth_of_length_gt h, List.length_take, List.length_drop, length_bothWays,
      length_extended h]
    omega
  · rw [smooth_of_length_le h]

end Lengths

/-- A list is the signal of its values, cut off at its length. -/
theorem eq_map_range (xs : List Rat) : xs = (List.range xs.length).map fun i => xs.getD i 0 :=
  List.ext_getElem (by simp) fun i h _ => by simp [h]

theorem map_range_succ (f : Nat → Rat) (n : Nat) :
    (List.range (n + 1)).map f = f 0 :: (List.range n).map fun i => f (i + 1) := by
  rw [List.range_succ_eq_map, List.map_cons, List.map_map]
  rfl

theorem reverse_map_range (f : Nat → Rat) (n : Nat) :
    ((List.range n).map f).reverse = (List.range n).map fun t => f (n - 1 - t) :=
  List.ext_getElem (by simp) fun i _ _ => by simp

theorem pairwise_map_range {R : Rat → Rat → Prop} {f : Nat → Rat} {n : Nat} :
    ((List.range n).map f).Pairwise R ↔ ∀ i j, i < j → j < n → R (f i) (f j) := by
  simp only [List.pairwise_iff_getElem, List.length_map, List.length_range, List.getElem_map,
    List.getElem_range]
  exact ⟨fun h i j hij hj => h i j (hij.trans hj) hj hij, fun h i j _ hj hij => h i j hij hj⟩

namespace Coefficients

variable (c : Coefficients Rat)

/-! ## Filters over signals -/

/-- What a filter that starts from a memory remembers when it has come to
a position of a signal. -/
def memoryAt (m : Memory Rat) (f : Nat → Rat) : Nat → Memory Rat
  | 0 => m
  | t + 1 => (c.step (memoryAt m f t) (f t)).2

/-- The output at a position of a signal. -/
def outputAt (m : Memory Rat) (f : Nat → Rat) (t : Nat) : Rat :=
  (c.step (c.memoryAt m f t) (f t)).1

/-- The output of a pass, which starts settled on the first value. -/
def passAt (f : Nat → Rat) (t : Nat) : Rat := c.outputAt (c.settled (f 0)) f t

/-- The output of a pass from the left over a signal of some length and one
from the right over what came out. -/
def bothWaysAt (n : Nat) (f : Nat → Rat) (t : Nat) : Rat :=
  c.passAt (fun s => c.passAt f (n - 1 - s)) (n - 1 - t)

theorem memoryAt_succ_eq (m : Memory Rat) (f : Nat → Rat) (t : Nat) :
    c.memoryAt m f (t + 1) = c.memoryAt (c.step m (f 0)).2 (fun i => f (i + 1)) t := by
  induction t with
  | zero => rfl
  | succ t ih =>
    rw [memoryAt, ih]
    rfl

theorem outputAt_succ_eq (m : Memory Rat) (f : Nat → Rat) (t : Nat) :
    c.outputAt m f (t + 1) = c.outputAt (c.step m (f 0)).2 (fun i => f (i + 1)) t := by
  rw [outputAt, outputAt, memoryAt_succ_eq]

theorem feed_map_range (m : Memory Rat) (f : Nat → Rat) (n : Nat) :
    c.feed m ((List.range n).map f) =
      ((List.range n).map (c.outputAt m f), c.memoryAt m f n) := by
  induction n generalizing m f with
  | zero => rfl
  | succ n ih =>
    have houtputs : (List.range (n + 1)).map (c.outputAt m f) = (c.step m (f 0)).1 ::
        (List.range n).map (c.outputAt (c.step m (f 0)).2 fun i => f (i + 1)) := by
      rw [map_range_succ]
      exact congrArg _ (List.map_congr_left fun t _ => c.outputAt_succ_eq m f t)
    rw [houtputs, memoryAt_succ_eq, map_range_succ, feed]
    simp only [ih]

theorem pass_map_range {n : Nat} (hn : 0 < n) (f : Nat → Rat) :
    (c.pass ((List.range n).map f)).1 = (List.range n).map (c.passAt f) := by
  obtain ⟨n, rfl⟩ := Nat.exists_eq_add_one_of_ne_zero hn.ne'
  have hfirst : ((List.range (n + 1)).map f).headD Scalar.zero = f 0 := by
    rw [map_range_succ, List.headD_cons]
  rw [pass, hfirst, feed_map_range]
  rfl

theorem bothWays_map_range {n : Nat} (hn : 0 < n) (f : Nat → Rat) :
    bothWays c ((List.range n).map f) = (List.range n).map (c.bothWaysAt n f) := by
  rw [bothWays, c.pass_map_range hn, reverse_map_range, c.pass_map_range hn, reverse_map_range]
  rfl

end Coefficients

/-! ## Linearity -/

/-- A linear combination of two memories. -/
def Memory.blend (p q : Rat) (m m' : Memory Rat) : Memory Rat :=
  ⟨p * m.first + q * m'.first, p * m.second + q * m'.second⟩

namespace Coefficients

variable (c : Coefficients Rat) {f g : Nat → Rat} {m m' : Memory Rat} (p q : Rat)

theorem step_blend (x y : Rat) :
    c.step (.blend p q m m') (p * x + q * y) =
      (p * (c.step m x).1 + q * (c.step m' y).1,
        .blend p q (c.step m x).2 (c.step m' y).2) := by
  simp only [step, Memory.blend, Prod.mk.injEq, Memory.mk.injEq]
  refine ⟨?_, ?_, ?_⟩ <;> ring

theorem settled_blend (x y : Rat) :
    c.settled (p * x + q * y) = .blend p q (c.settled x) (c.settled y) := by
  simp only [settled, Memory.blend, Memory.mk.injEq]
  constructor <;> ring

theorem memoryAt_blend (t : Nat) :
    c.memoryAt (.blend p q m m') (fun t => p * f t + q * g t) t =
      .blend p q (c.memoryAt m f t) (c.memoryAt m' g t) := by
  induction t with
  | zero => rfl
  | succ t ih => simp only [memoryAt, ih, step_blend]

theorem passAt_blend (t : Nat) :
    c.passAt (fun t => p * f t + q * g t) t = p * c.passAt f t + q * c.passAt g t := by
  simp only [passAt, outputAt, settled_blend, memoryAt_blend, step_blend]

theorem bothWaysAt_blend (n t : Nat) :
    c.bothWaysAt n (fun t => p * f t + q * g t) t =
      p * c.bothWaysAt n f t + q * c.bothWaysAt n g t := by
  simp only [bothWaysAt, passAt_blend]

/-! ## Constants -/

/-- A constant input comes out with the gain and leaves the memory that is
settled on it as it was. -/
theorem step_settled (hgain : 1 + c.a0 + c.a1 ≠ 0) (v : Rat) :
    c.step (c.settled v) v = (c.constantGain * v, c.settled v) := by
  have hk : c.constantGain * (1 + c.a0 + c.a1) = c.b0 + c.b1 + c.b2 := div_mul_cancel₀ _ hgain
  simp only [step, settled, unitSettled, Prod.mk.injEq, Memory.mk.injEq]
  refine ⟨?_, ?_, ?_⟩
  · linear_combination -v * hk
  · linear_combination c.a0 * v * hk
  · linear_combination c.a1 * v * hk

theorem memoryAt_settled (hgain : 1 + c.a0 + c.a1 ≠ 0) (v : Rat) {n : Nat}
    (hf : ∀ i < n, f i = v) : c.memoryAt (c.settled v) f n = c.settled v := by
  induction n with
  | zero => rfl
  | succ n ih =>
    rw [memoryAt, ih fun i hi => hf i (Nat.lt_succ_of_lt hi), hf n n.lt_succ_self,
      c.step_settled hgain]

/-- As long as a signal has not moved from its first value, it comes out
with the gain. -/
theorem passAt_of_constant (hgain : 1 + c.a0 + c.a1 ≠ 0) {v : Rat} {t : Nat}
    (hf : ∀ i ≤ t, f i = v) : c.passAt f t = c.constantGain * v := by
  rw [passAt, outputAt, hf 0 t.zero_le, c.memoryAt_settled hgain v fun i hi => hf i hi.le,
    hf t le_rfl, c.step_settled hgain]

theorem bothWaysAt_of_constant (hgain : 1 + c.a0 + c.a1 ≠ 0) {v : Rat} {n : Nat} (hn : 0 < n)
    (hf : ∀ i < n, f i = v) (t : Nat) :
    c.bothWaysAt n f t = c.constantGain * c.constantGain * v := by
  have hleft (s : Nat) : c.passAt f (n - 1 - s) = c.constantGain * v :=
    c.passAt_of_constant hgain fun i hi => hf i (by omega)
  simp only [bothWaysAt, hleft]
  rw [c.passAt_of_constant hgain fun _ _ => rfl, mul_assoc]

end Coefficients

/-! ## The smoothed signal -/

/-- A signal of some length with its ends reflected: the value at a
position, counted from the start of the extension. -/
def extendedAt (n : Nat) (f : Nat → Rat) (t : Nat) : Rat :=
  if t < padding then 2 * f 0 - f (padding - t)
  else if t < n + padding then f (t - padding)
  else 2 * f (n - 1) - f (2 * n + 4 - t)

/-- The value at a position of a smoothed signal of some length. -/
def smoothed (n : Nat) (f : Nat → Rat) (i : Nat) : Rat :=
  Coefficients.lowPass.bothWaysAt (n + 2 * padding) (extendedAt n f) (i + padding)

section Zones

variable {n t i : Nat} {f : Nat → Rat}

theorem extendedAt_of_lt (h : t < padding) :
    extendedAt n f t = 2 * f 0 - f (padding - t) :=
  if_pos h

theorem extendedAt_padding_add (h : i < n) : extendedAt n f (padding + i) = f i := by
  rw [extendedAt, if_neg (by omega), if_pos (by omega), Nat.add_sub_cancel_left]

theorem extendedAt_past_end (hn : padding < n) (h : i < padding) :
    extendedAt n f (padding + n + i) = 2 * f (n - 1) - f (n - 1 - (i + 1)) := by
  rw [extendedAt, if_neg (by omega), if_neg (by omega), sub_right_inj]
  have hpadding : padding = 6 := rfl
  exact congrArg f (by omega)

end Zones

theorem reflection_map_range {n : Nat} (hn : padding < n) (f : Nat → Rat) :
    reflection ((List.range n).map f) =
      (List.range padding).map fun i => 2 * f 0 - f (i + 1) := by
  obtain ⟨n, rfl⟩ := Nat.exists_eq_add_one_of_ne_zero (Nat.ne_zero_of_lt hn)
  rw [map_range_succ, reflection, ← List.map_take, List.take_range,
    min_eq_left (Nat.lt_succ_iff.mp hn), List.map_map]
  rfl

theorem extended_map_range {n : Nat} (hn : padding < n) (f : Nat → Rat) :
    extended ((List.range n).map f) = (List.range (n + 2 * padding)).map (extendedAt n f) := by
  have hsplit : List.range (n + 2 * padding) = List.range padding ++
      (List.range n).map (padding + ·) ++ (List.range padding).map (padding + n + ·) := by
    rw [← List.range_add, ← List.range_add]
    congr 1
    omega
  rw [extended, reverse_map_range, reflection_map_range hn, reflection_map_range hn,
    reverse_map_range, hsplit]
  simp only [List.map_append, List.map_map]
  refine congrArg₂ (· ++ ·) (congrArg₂ (· ++ ·) ?_ ?_) ?_ <;>
    refine List.map_congr_left fun i hi => ?_
  · rw [extendedAt_of_lt (List.mem_range.mp hi), sub_right_inj]
    have hi' := List.mem_range.mp hi
    exact congrArg f (by omega)
  · exact (extendedAt_padding_add (List.mem_range.mp hi)).symm
  · exact (extendedAt_past_end hn (List.mem_range.mp hi)).symm

theorem smooth_map_range {n : Nat} (hn : padding < n) (f : Nat → Rat) :
    smooth ((List.range n).map f) = (List.range n).map (smoothed n f) := by
  have hlen : padding < ((List.range n).map f).length := by simpa using hn
  rw [smooth_of_length_gt hlen, extended_map_range hn,
    Coefficients.bothWays_map_range _ (by omega)]
  refine List.ext_getElem ?_ fun i h h' => ?_
  · simp only [List.length_take, List.length_drop, List.length_map, List.length_range]
    omega
  · simp [smoothed, Nat.add_comm]

theorem extendedAt_blend (p q : Rat) (n : Nat) (f g : Nat → Rat) (t : Nat) :
    extendedAt n (fun i => p * f i + q * g i) t =
      p * extendedAt n f t + q * extendedAt n g t := by
  simp only [extendedAt]
  split_ifs <;> ring

/-- Smoothing is linear. -/
theorem smoothed_blend (p q : Rat) (n : Nat) (f g : Nat → Rat) (i : Nat) :
    smoothed n (fun i => p * f i + q * g i) i = p * smoothed n f i + q * smoothed n g i := by
  have hext : extendedAt n (fun i => p * f i + q * g i) =
      fun t => p * extendedAt n f t + q * extendedAt n g t :=
    funext (extendedAt_blend p q n f g)
  rw [smoothed, hext, Coefficients.bothWaysAt_blend]
  rfl

theorem lowPass_settles :
    1 + (Coefficients.lowPass : Coefficients Rat).a0 + Coefficients.lowPass.a1 ≠ 0 := by
  norm_num [Coefficients.lowPass]

/-- The factor by which a constant series comes out of the smoothing. -/
def smoothGain : Rat := Coefficients.lowPass.constantGain * Coefficients.lowPass.constantGain

theorem smoothed_constant (n : Nat) (v : Rat) (i : Nat) :
    smoothed n (fun _ => v) i = smoothGain * v := by
  have hext : extendedAt n (fun _ => v) = fun _ => v := by
    funext t
    simp only [extendedAt]
    split_ifs <;> ring
  have hlength : 0 < n + 2 * padding := Nat.add_pos_right n (by decide)
  rw [smoothed, hext, smoothGain]
  exact Coefficients.bothWaysAt_of_constant _ lowPass_settles hlength (fun _ _ => rfl) _

/-- A constant series stays constant. -/
theorem smooth_replicate (n : Nat) (v : Rat) :
    smooth (List.replicate n v) =
      List.replicate n (if n ≤ padding then v else smoothGain * v) := by
  split_ifs with h
  · exact smooth_of_length_le (by simpa using h)
  · have hsignal (w : Rat) : List.replicate n w = (List.range n).map fun _ => w := by simp
    rw [hsignal, smooth_map_range (Nat.lt_of_not_le h), hsignal]
    exact List.map_congr_left fun i _ => smoothed_constant n v i

end CostAudit.Growth
