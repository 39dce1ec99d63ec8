import Mathlib.Tactic.FieldSimp
import CostAudit.Proofs.Growth.Smoothing

/-!
# The wake of a drop

What a filter run both ways makes of a signal that drops from one to zero.

Past the drop the filter runs free: each memory is the free image of the
one before it, so the pass from the left leaves a tail. The pass from the
right hears that tail backwards. A filter that had heard all of it, from
infinitely far out, would answer with an echo: a fixed linear function of
the memory the tail has at the place. Once over the drop, the same echoes
come back in their order, taken off the constant, because they ring on
their own (`heard_unitSettled`).

A series ends, though, and the pass from the right starts settled on the
last value of the tail. What that start misses of the tail it never heard
runs free from there, and is added on top as a ripple.
-/

namespace CostAudit.Growth

/-- One up to a place, and zero from there on. -/
def dropAt (place : Nat) (t : Nat) : Rat := if t < place then 1 else 0

theorem dropAt_of_lt {place t : Nat} (h : t < place) : dropAt place t = 1 := if_pos h

theorem dropAt_of_le {place t : Nat} (h : place ≤ t) : dropAt place t = 0 := if_neg h.not_gt

namespace Coefficients

variable (c : Coefficients Rat)

/-! ## Running free -/

/-- The memory after an input of zero. -/
def free (m : Memory Rat) : Memory Rat := ⟨m.second - c.a0 * m.first, -(c.a1 * m.first)⟩

theorem step_zero (m : Memory Rat) : c.step m 0 = (m.first, c.free m) := by
  simp only [step, free, Prod.mk.injEq, Memory.mk.injEq]
  refine ⟨?_, ?_, ?_⟩ <;> ring

theorem memoryAt_zero (m : Memory Rat) (t : Nat) :
    c.memoryAt m (fun _ => 0) t = c.free^[t] m := by
  induction t with
  | zero => rfl
  | succ t ih => rw [memoryAt, ih, step_zero, Function.iterate_succ_apply']

/-- The memory some places after a constant one has dropped to zero. -/
def tail (n : Nat) : Memory Rat := c.free^[n] c.unitSettled

theorem tail_succ (n : Nat) : c.tail (n + 1) = c.free (c.tail n) :=
  Function.iterate_succ_apply' _ _ _

theorem settled_one : c.settled 1 = c.unitSettled := by
  simp only [settled, mul_one]

theorem memoryAt_dropAt (hgain : 1 + c.a0 + c.a1 ≠ 0) (place n : Nat) :
    c.memoryAt (c.settled 1) (dropAt place) (place + n) = c.tail n := by
  induction n with
  | zero =>
    rw [Nat.add_zero, c.memoryAt_settled hgain 1 fun _ => dropAt_of_lt, settled_one]
    rfl
  | succ n ih =>
    rw [← Nat.add_assoc, memoryAt, ih, dropAt_of_le (Nat.le_add_right place n), step_zero,
      tail_succ]

/-- The pass from the left: the gain up to the drop, then the tail. -/
theorem passAt_dropAt (hgain : 1 + c.a0 + c.a1 ≠ 0) {place : Nat} (hplace : 0 < place)
    (t : Nat) :
    c.passAt (dropAt place) t =
      if t < place then c.constantGain else (c.tail (t - place)).first := by
  split_ifs with ht
  · have hone : ∀ i ≤ t, dropAt place i = 1 := fun i hi => dropAt_of_lt (hi.trans_lt ht)
    rw [c.passAt_of_constant hgain hone, mul_one]
  · obtain ⟨n, rfl⟩ := Nat.exists_eq_add_of_le (Nat.le_of_not_lt ht)
    rw [passAt, outputAt, dropAt_of_lt hplace, c.memoryAt_dropAt hgain,
      dropAt_of_le (Nat.le_add_right place n), step_zero, Nat.add_sub_cancel_left]

/-! ## Echoes

The weights of an echo solve the two equations that make it an output of
the filter which hears the free run backwards (`step_heard`). -/

/-- The determinant of the equations for the weights of an echo. -/
def resonance : Rat := (1 - c.a1) * ((1 + c.a1) ^ 2 - c.a0 ^ 2)

/-- The weight of the output at the place of an echo. -/
def echoWeight : Rat :=
  ((c.b0 - c.a1 * c.b2) * (1 + c.a1 - c.a0 ^ 2) + (c.b1 - c.a0 * c.b2) * (c.a0 * c.a1)) /
    c.resonance

/-- The weight of the output one place further on. -/
def echoNextWeight : Rat :=
  ((c.b1 - c.a0 * c.b2) * (1 + c.a1) - (c.b0 - c.a1 * c.b2) * c.a0) / c.resonance

/-- The answer at a place to the free run from a memory, heard backwards
from infinitely far out. -/
def echo (m : Memory Rat) : Rat :=
  c.echoWeight * m.first + c.echoNextWeight * (c.free m).first

/-- The memory of the filter that has given that answer. -/
def heard (m : Memory Rat) : Memory Rat :=
  ⟨c.b1 * m.first - c.a0 * c.echo m + (c.b2 * (c.free m).first - c.a1 * c.echo (c.free m)),
    c.b2 * m.first - c.a1 * c.echo m⟩

theorem step_heard (hres : c.resonance ≠ 0) (m : Memory Rat) :
    c.step (c.heard (c.free m)) m.first = (c.echo m, c.heard m) := by
  have hout : c.b0 * m.first + (c.heard (c.free m)).first = c.echo m := by
    simp only [heard, echo, free, echoWeight, echoNextWeight]
    field_simp
    simp only [resonance]
    ring
  simp only [step, hout]
  simp only [heard]

/-- The memory whose free run is the echoes in their order. -/
def echoMemory (m : Memory Rat) : Memory Rat :=
  ⟨c.echo m, c.echo (c.free m) + c.a0 * c.echo m⟩

theorem free_echoMemory (m : Memory Rat) : c.free (c.echoMemory m) = c.echoMemory (c.free m) := by
  simp only [echoMemory, echo, free, Memory.mk.injEq]
  constructor <;> ring

/-- When the backwards run comes to the drop, what its memory lacks of the
one settled on the constant rings as the echoes do. -/
theorem heard_unitSettled (hgain : 1 + c.a0 + c.a1 ≠ 0) (hres : c.resonance ≠ 0) :
    c.heard c.unitSettled =
      .blend 1 (-1) (c.settled c.constantGain) (c.echoMemory c.unitSettled) := by
  have hk : c.constantGain = (c.b0 + c.b1 + c.b2) / (1 + c.a0 + c.a1) := rfl
  simp only [heard, Memory.blend, Memory.mk.injEq, echo, echoMemory, free, unitSettled, settled,
    hk, echoWeight, echoNextWeight]
  constructor <;>
  · field_simp
    simp only [resonance]
    ring

/-- The echo some places from a drop. -/
def wake (n : Nat) : Rat := c.echo (c.tail n)

theorem wake_eq (n : Nat) : c.wake n = (c.free^[n] (c.echoMemory c.unitSettled)).first := by
  have hcomm (n : Nat) : c.free^[n] (c.echoMemory c.unitSettled) = c.echoMemory (c.tail n) := by
    induction n with
    | zero => rfl
    | succ n ih => rw [Function.iterate_succ_apply', ih, free_echoMemory, tail_succ]
  rw [hcomm]
  rfl

/-! ## The pass from the right -/

/-- A signal heard from the right: the tail of a drop backwards, from some
place of it, and then the constant before the drop. -/
structure HearsDrop (n : Nat) (z : Nat → Rat) : Prop where
  tail : ∀ s ≤ n, z s = (c.tail (n - s)).first
  constant : ∀ s, n < s → z s = c.constantGain

section HearsDrop

variable {c} {n : Nat} {z : Nat → Rat}

theorem HearsDrop.memoryAt (hres : c.resonance ≠ 0) (hz : c.HearsDrop n z) {s : Nat}
    (hs : s ≤ n + 1) : c.memoryAt (c.heard (c.tail (n + 1))) z s = c.heard (c.tail (n + 1 - s)) := by
  induction s with
  | zero => rfl
  | succ s ih =>
    have hnext : c.tail (n + 1 - s) = c.free (c.tail (n - s)) := by
      rw [← tail_succ, Nat.sub_add_comm (Nat.lt_succ_iff.mp hs)]
    rw [Coefficients.memoryAt, ih (by omega), hnext, hz.tail s (by omega), c.step_heard hres,
      Nat.add_sub_add_right]

theorem HearsDrop.memoryAt_past (hgain : 1 + c.a0 + c.a1 ≠ 0) (hres : c.resonance ≠ 0)
    (hz : c.HearsDrop n z) (k : Nat) :
    c.memoryAt (c.heard (c.tail (n + 1))) z (n + 1 + k) =
      .blend 1 (-1) (c.settled c.constantGain) (c.free^[k] (c.echoMemory c.unitSettled)) := by
  induction k with
  | zero =>
    rw [Nat.add_zero, hz.memoryAt hres le_rfl, Nat.sub_self]
    exact c.heard_unitSettled hgain hres
  | succ k ih =>
    have hinput : z (n + 1 + k) = 1 * c.constantGain + -1 * 0 := by
      rw [hz.constant _ (by omega)]
      ring
    rw [← Nat.add_assoc, Coefficients.memoryAt, ih, hinput, step_blend, c.step_settled hgain,
      step_zero, Function.iterate_succ_apply']

/-- A pass that has heard the tail from infinitely far out. -/
theorem HearsDrop.outputAt (hgain : 1 + c.a0 + c.a1 ≠ 0) (hres : c.resonance ≠ 0)
    (hz : c.HearsDrop n z) (s : Nat) :
    c.outputAt (c.heard (c.tail (n + 1))) z s =
      if s ≤ n then c.wake (n - s)
      else c.constantGain * c.constantGain - c.wake (s - (n + 1)) := by
  split_ifs with hs
  · have hnext : c.tail (n + 1 - s) = c.free (c.tail (n - s)) := by
      rw [← tail_succ, Nat.sub_add_comm hs]
    rw [Coefficients.outputAt, hz.memoryAt hres (by omega), hnext, hz.tail s hs,
      c.step_heard hres, wake]
  · obtain ⟨k, rfl⟩ := Nat.exists_eq_add_of_le (Nat.lt_of_not_le hs)
    have hinput : z (n + 1 + k) = 1 * c.constantGain + -1 * 0 := by
      rw [hz.constant _ (by omega)]
      ring
    rw [Coefficients.outputAt, Nat.succ_eq_add_one, hz.memoryAt_past hgain hres, hinput,
      step_blend, c.step_settled hgain, step_zero, Nat.add_sub_cancel_left, wake_eq]
    ring

end HearsDrop

/-- What a start settled on a place of the tail misses of what lies beyond
it. -/
def missed (m : Memory Rat) : Memory Rat :=
  .blend 1 (-1) (c.settled m.first) (c.heard (c.free m))

/-- What of it is left after some places. -/
def ripple (n s : Nat) : Rat := (c.free^[s] (c.missed (c.tail n))).first

theorem settled_eq_heard_add_missed (m : Memory Rat) :
    c.settled m.first = .blend 1 1 (c.heard (c.free m)) (c.missed m) := by
  simp only [missed, Memory.blend, settled, Memory.mk.injEq]
  constructor <;> ring

theorem passAt_of_hearsDrop (hgain : 1 + c.a0 + c.a1 ≠ 0) (hres : c.resonance ≠ 0) {n : Nat}
    {z : Nat → Rat} (hz : c.HearsDrop n z) (s : Nat) :
    c.passAt z s =
      (if s ≤ n then c.wake (n - s)
        else c.constantGain * c.constantGain - c.wake (s - (n + 1))) + c.ripple n s := by
  have hstart : c.settled (z 0) = .blend 1 1 (c.heard (c.tail (n + 1))) (c.missed (c.tail n)) := by
    rw [hz.tail 0 n.zero_le, Nat.sub_zero, settled_eq_heard_add_missed, tail_succ]
  have hsignal : z = fun s => 1 * z s + 1 * 0 := by
    funext s
    ring
  rw [passAt, outputAt, hstart, ← hz.outputAt hgain hres s, outputAt]
  conv_lhs => rw [hsignal]
  rw [memoryAt_blend, step_blend, memoryAt_zero, step_zero, ripple]
  ring

/-- A drop run both ways: the wake on both sides of it, and the ripple of
the end. -/
theorem bothWaysAt_dropAt (hgain : 1 + c.a0 + c.a1 ≠ 0) (hres : c.resonance ≠ 0)
    {place n t : Nat} (hplace : 0 < place) (hn : place < n) (ht : t < n) :
    c.bothWaysAt n (dropAt place) t =
      (if t < place then c.constantGain * c.constantGain - c.wake (place - 1 - t)
        else c.wake (t - place)) + c.ripple (n - 1 - place) (n - 1 - t) := by
  have hz : c.HearsDrop (n - 1 - place) fun s => c.passAt (dropAt place) (n - 1 - s) := by
    constructor <;> intro s hs <;> simp only [c.passAt_dropAt hgain hplace]
    · rw [if_neg (by omega), Nat.sub_right_comm]
    · rw [if_pos (by omega)]
  rw [bothWaysAt, c.passAt_of_hearsDrop hgain hres hz]
  congr 1
  by_cases hside : t < place
  · rw [if_pos hside, if_neg (by omega)]
    congr 2
    omega
  · rw [if_neg hside, if_pos (by omega)]
    congr 1
    omega

/-! ## Energy -/

/-- A quadratic form in a memory that running free shrinks by the last
coefficient. -/
def energy (m : Memory Rat) : Rat :=
  m.second ^ 2 - c.a0 * m.first * m.second + c.a1 * m.first ^ 2

theorem energy_free (m : Memory Rat) : c.energy (c.free m) = c.a1 * c.energy m := by
  simp only [energy, free]
  ring

theorem energy_iterate_free (m : Memory Rat) (n : Nat) :
    c.energy (c.free^[n] m) = c.a1 ^ n * c.energy m := by
  induction n with
  | zero => rw [pow_zero, one_mul, Function.iterate_zero_apply]
  | succ n ih => rw [Function.iterate_succ_apply', energy_free, ih, pow_succ', mul_assoc]

theorem first_sq_le_energy (m : Memory Rat) :
    (c.a1 - c.a0 ^ 2 / 4) * m.first ^ 2 ≤ c.energy m := by
  have hsq : c.energy m =
      (m.second - c.a0 / 2 * m.first) ^ 2 + (c.a1 - c.a0 ^ 2 / 4) * m.first ^ 2 := by
    simp only [energy]
    ring
  rw [hsq]
  exact le_add_of_nonneg_left (sq_nonneg _)

end Coefficients

end CostAudit.Growth
