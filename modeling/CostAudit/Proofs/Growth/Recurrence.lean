import CostAudit.Growth.Smoothing
import CostAudit.Proofs.Growth.Smoothing

/-!
# A pass solves the difference equation

On paper a filter computes an output from the last three inputs and the last
two outputs. Here it remembers neither, but two sums: what the inputs and
outputs so far contribute to the next output, and what they contribute to
the one after it (`owed`). One step pays the first sum out and brings both
up to date, so as long as the memory is what is owed, the outputs solve the
equation.

A pass starts with what is owed after a constant past, in which the first
value went in and came out with the gain forever. Such a past solves the
equation by itself, so a pass and its past solve it at every place. Nothing
else is left of what the filter was used for before.
-/

namespace CostAudit.Growth

/-- A signal that was constant before its start. -/
def withPast (past : Rat) (f : Nat → Rat) : Int → Rat
  | .ofNat t => f t
  | .negSucc _ => past

theorem withPast_of_neg (past : Rat) (f : Nat → Rat) {i : Int} (hi : i < 0) :
    withPast past f i = past := by
  obtain ⟨t, rfl⟩ := Int.eq_negSucc_of_lt_zero hi
  rfl

namespace Coefficients

variable (c : Coefficients Rat) {x y : Int → Rat} {i : Int}

/-- The difference equation of a filter at a place, for an input and an
output. -/
def SolvesAt (x y : Int → Rat) (i : Int) : Prop :=
  y i = c.b0 * x i + c.b1 * x (i - 1) + c.b2 * x (i - 2) - c.a0 * y (i - 1) - c.a1 * y (i - 2)

/-- What inputs and outputs before a place contribute to the output there
and to the one after it. -/
def owed (x y : Int → Rat) (i : Int) : Memory Rat where
  first := c.b1 * x (i - 1) + c.b2 * x (i - 2) - c.a0 * y (i - 1) - c.a1 * y (i - 2)
  second := c.b2 * x (i - 1) - c.a1 * y (i - 1)

theorem solvesAt_iff : c.SolvesAt x y i ↔ y i = (c.step (c.owed x y i) (x i)).1 := by
  have hout : (c.step (c.owed x y i) (x i)).1 = c.b0 * x i + c.b1 * x (i - 1) +
      c.b2 * x (i - 2) - c.a0 * y (i - 1) - c.a1 * y (i - 2) := by
    simp only [step, owed]
    ring
  rw [SolvesAt, hout]

/-- A step that gives out what the equation asks for leaves what is owed
next. -/
theorem step_owed (h : c.SolvesAt x y i) :
    c.step (c.owed x y i) (x i) = (y i, c.owed x y (i + 1)) := by
  have hprev : i + 1 - 2 = i - 1 := by ring
  have hout : c.b0 * x i + (c.owed x y i).first = y i := (c.solvesAt_iff.mp h).symm
  simp only [step, hout]
  simp only [owed, add_sub_cancel_right, hprev, Prod.mk.injEq, Memory.mk.injEq, true_and, and_true]
  ring

/-- The equation asks for nothing past its place. -/
theorem SolvesAt.congr {x' y' : Int → Rat} (h : c.SolvesAt x y i)
    (hx : ∀ j ≤ i, x' j = x j) (hy : ∀ j ≤ i, y' j = y j) : c.SolvesAt x' y' i := by
  rw [SolvesAt, hx i le_rfl, hx (i - 1) (by omega), hx (i - 2) (by omega), hy i le_rfl,
    hy (i - 1) (by omega), hy (i - 2) (by omega)]
  exact h

/-! ## A constant past -/

section Past

variable (f : Nat → Rat)

/-- What is owed after a constant past is the settled memory. -/
theorem owed_zero : c.owed (withPast (f 0) f) (withPast (c.constantGain * f 0) (c.passAt f)) 0 =
    c.settled (f 0) := by
  have hin (j : Int) (hj : j < 0) : withPast (f 0) f j = f 0 := withPast_of_neg _ _ hj
  have hout (j : Int) (hj : j < 0) :
      withPast (c.constantGain * f 0) (c.passAt f) j = c.constantGain * f 0 :=
    withPast_of_neg _ _ hj
  simp only [owed, hin (0 - 1) (by decide), hin (0 - 2) (by decide), hout (0 - 1) (by decide),
    hout (0 - 2) (by decide), settled, unitSettled, Memory.mk.injEq]
  constructor <;> ring

/-- The past solves the equation by itself. -/
theorem solvesAt_of_neg (hgain : 1 + c.a0 + c.a1 ≠ 0) {v : Rat} {g : Nat → Rat} (hi : i < 0) :
    c.SolvesAt (withPast v f) (withPast (c.constantGain * v) g) i := by
  have hk : c.constantGain * (1 + c.a0 + c.a1) = c.b0 + c.b1 + c.b2 := div_mul_cancel₀ _ hgain
  simp only [SolvesAt, withPast_of_neg _ _ hi, withPast_of_neg _ _ (show i - 1 < 0 by omega),
    withPast_of_neg _ _ (show i - 2 < 0 by omega)]
  linear_combination v * hk

/-- A pass remembers what is owed, at every place. -/
theorem memoryAt_eq_owed (t : Nat) :
    c.memoryAt (c.settled (f 0)) f t =
      c.owed (withPast (f 0) f) (withPast (c.constantGain * f 0) (c.passAt f)) t := by
  induction t with
  | zero => exact (c.owed_zero f).symm
  | succ t ih =>
    have hsolves : c.SolvesAt (withPast (f 0) f)
        (withPast (c.constantGain * f 0) (c.passAt f)) t := by
      rw [solvesAt_iff, ← ih]
      rfl
    have hstep := c.step_owed hsolves
    rw [← ih] at hstep
    exact congrArg Prod.snd hstep

theorem solvesAt_passAt (hgain : 1 + c.a0 + c.a1 ≠ 0) (i : Int) :
    c.SolvesAt (withPast (f 0) f) (withPast (c.constantGain * f 0) (c.passAt f)) i := by
  rcases lt_or_ge i 0 with hi | hi
  · exact c.solvesAt_of_neg f hgain hi
  · obtain ⟨t, rfl⟩ := Int.eq_ofNat_of_zero_le hi
    rw [solvesAt_iff, ← c.memoryAt_eq_owed f t]
    rfl

end Past

end Coefficients

/-! ## A filter at work -/

namespace Filter

variable {f g : Filter Rat}

theorem steps_eq (f : Filter Rat) (xs : List Rat) :
    f.steps xs = ((f.coefficients.feed f.memory xs).1,
      ⟨f.coefficients, (f.coefficients.feed f.memory xs).2⟩) := by
  induction xs generalizing f with
  | nil => rfl
  | cons x xs ih => simp only [steps, step, Coefficients.feed, ih]

/-- A pass does not depend on the memory before it. -/
theorem pass_eq (f : Filter Rat) (xs : List Rat) :
    f.pass xs = ((f.coefficients.pass xs).1, ⟨f.coefficients, (f.coefficients.pass xs).2⟩) :=
  steps_eq _ xs

/-- Smoothing runs both its passes on one filter: the second is what it would
be on a new one. -/
theorem bothWays_eq (f : Filter Rat) (xs : List Rat) :
    let forward := f.pass xs
    bothWays f.coefficients xs = (forward.2.pass forward.1.reverse).1.reverse := by
  simp only [bothWays, pass_eq]

/-- What becomes of a filter that is used for steps and passes and reset, in
any order. -/
inductive Later (f : Filter Rat) : Filter Rat → Prop
  | unused : Later f f
  | step {g : Filter Rat} (x : Rat) : Later f g → Later f (g.step x).2
  | pass {g : Filter Rat} (xs : List Rat) : Later f g → Later f (g.pass xs).2
  | reset {g : Filter Rat} (level : Rat) : Later f g → Later f (g.reset level)

theorem Later.coefficients_eq (h : f.Later g) : g.coefficients = f.coefficients := by
  induction h with
  | unused => rfl
  | step x _ ih => exact ih
  | pass xs _ ih => rw [pass_eq, ih]
  | reset level _ ih => exact ih

/-- The outputs of a pass as a signal. -/
theorem pass_map_range (f : Filter Rat) {xs : List Rat} (hxs : xs ≠ []) :
    (f.pass xs).1 =
      (List.range xs.length).map (f.coefficients.passAt fun t => xs.getD t 0) := by
  rw [pass_eq]
  conv_lhs => rw [eq_map_range xs]
  exact f.coefficients.pass_map_range (List.length_pos_iff.mpr hxs) _

/-- A pass over a list that is not empty solves the difference equation at
every place up to its end, whatever the filter was used for before, and
comes out as that of a filter which has not been used. -/
theorem pass_solves_differenceEquation {f g : Filter Rat}
    (hgain : 1 + f.coefficients.a0 + f.coefficients.a1 ≠ 0) (hlater : f.Later g) (x : Rat)
    (xs : List Rat) :
    let ys := (g.pass (x :: xs)).1
    ys.length = (x :: xs).length ∧
      (∀ i : Int, i < (x :: xs).length →
        f.coefficients.SolvesAt (withPast x fun t => (x :: xs).getD t 0)
          (withPast (f.coefficients.constantGain * x) fun t => ys.getD t 0) i) ∧
      g.pass (x :: xs) = (Filter.new f.coefficients).pass (x :: xs) := by
  intro ys
  have hys : ys = (List.range (x :: xs).length).map
      (f.coefficients.passAt fun t => (x :: xs).getD t 0) := by
    rw [← hlater.coefficients_eq]
    exact g.pass_map_range (List.cons_ne_nil x xs)
  refine ⟨by rw [hys, List.length_map, List.length_range], fun i hi => ?_, ?_⟩
  · refine (f.coefficients.solvesAt_passAt _ hgain i).congr _ (fun _ _ => rfl) fun j hj => ?_
    rcases j with t | t
    · have ht : t < ys.length := by
        rw [hys, List.length_map, List.length_range]
        exact Int.ofNat_lt.mp (hj.trans_lt hi)
      show ys.getD t 0 = _
      rw [List.getD_eq_getElem?_getD, List.getElem?_eq_getElem ht, Option.getD_some]
      simp only [hys, List.getElem_map, List.getElem_range, withPast]
    · rfl
  · rw [pass_eq, pass_eq, hlater.coefficients_eq]
    rfl

/-- A filter that doubles a constant, after a step and a pass. -/
theorem pass_after_uses :
    let c : Coefficients Rat := ⟨2, 1, 3, 1, 1⟩
    1 + c.a0 + c.a1 ≠ 0 ∧
      ∃ g, (Filter.new c).Later g ∧ g.memory.first ≠ 0 ∧ (g.pass [1, 2, 0]).1 = [2, 4, -1] ∧
        ∀ i : Int, i < 3 → c.SolvesAt (withPast 1 fun t => [1, 2, 0].getD t 0)
          (withPast (c.constantGain * 1) fun t => [2, 4, -1].getD t 0) i := by
  intro c
  have hgain : 1 + c.a0 + c.a1 ≠ 0 := by norm_num [c]
  have hlater : (Filter.new c).Later (((Filter.new c).step 5).2.pass [7, 1]).2 :=
    .pass _ (.step _ .unused)
  obtain ⟨-, hsolves, hnew⟩ := pass_solves_differenceEquation hgain hlater 1 [2, 0]
  have hout : ((((Filter.new c).step 5).2.pass [7, 1]).2.pass [1, 2, 0]).1 = [2, 4, -1] := by
    rw [hnew]
    decide +kernel
  rw [hout] at hsolves
  exact ⟨hgain, _, hlater, by decide +kernel, hout, hsolves⟩

end Filter

end CostAudit.Growth
