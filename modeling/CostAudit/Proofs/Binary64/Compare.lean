import CostAudit.Proofs.Scalar

/-!
# Comparing doubles

A double that is a number has a rank: its kind, from the negative infinity
to the positive one, then its exponent, then its mantissa. The comparisons
of doubles are those of the ranks (`lt_iff`, `le_iff`), and a double that is
no number has no rank and stands in neither relation to anything.

Neither above nor below zero are the two zeros and what is no number
(`isNothing_iff`), and products and quotients lead from these to these only.
-/

namespace CostAudit.Binary64

open Float.Model Float.Model.UnpackedFloat

/-- The place of a number in the order. -/
structure Rank where
  kind : Int
  exponent : Int
  mantissa : Int

namespace Rank

def compare (x y : Rank) : Ordering :=
  (Ord.compare x.kind y.kind).then
    ((Ord.compare x.exponent y.exponent).then (Ord.compare x.mantissa y.mantissa))

/-- The order of the ranks. -/
def Below (x y : Rank) : Prop :=
  x.kind < y.kind ∨ x.kind = y.kind ∧
    (x.exponent < y.exponent ∨ x.exponent = y.exponent ∧ x.mantissa < y.mantissa)

theorem compare_eq_lt {x y : Rank} : x.compare y = .lt ↔ x.Below y := by
  simp only [compare, Below, Ordering.then_eq_lt, Int.compare_eq_lt, Int.compare_eq_eq]

theorem compare_eq_gt {x y : Rank} : x.compare y = .gt ↔ y.Below x := by
  simp only [compare, Below, Ordering.then_eq_gt, Int.compare_eq_gt, Int.compare_eq_eq]
  omega

theorem below_of_below_of_not_below {x y z : Rank} (hxy : x.Below y) (hyz : ¬z.Below y) :
    x.Below z := by
  unfold Below at *
  omega

end Rank

/-- The rank of an unpacked double. The two zeros share theirs. -/
def rank? : UnpackedFloat → Option Rank
  | .notANumber => none
  | .infinity .negative => some ⟨-2, 0, 0⟩
  | .finite .negative m e _ => some ⟨-1, -e, -m⟩
  | .zero _ => some ⟨0, 0, 0⟩
  | .finite .positive m e _ => some ⟨1, e, m⟩
  | .infinity .positive => some ⟨2, 0, 0⟩

theorem compare_natCast (m n : Nat) : compare (m : Int) (n : Int) = compare m n := by
  simp only [compare, compareOfLessAndEq, Int.ofNat_lt, Int.ofNat_inj]

theorem compare_neg (a b : Int) : compare (-a) (-b) = (compare a b).swap := by
  rcases Int.lt_trichotomy a b with h | rfl | h
  · rw [Int.compare_eq_lt.mpr h, Int.compare_eq_gt.mpr (by omega)]
    rfl
  · simp
  · rw [Int.compare_eq_gt.mpr h, Int.compare_eq_lt.mpr (by omega)]
    rfl

theorem Rank.compare_positive (m n : Nat) (e f : Int) :
    Rank.compare ⟨1, e, m⟩ ⟨1, f, n⟩ = (Ord.compare e f).then (Ord.compare m n) := by
  simp only [Rank.compare, compare_natCast]
  rfl

theorem Rank.compare_negative (m n : Nat) (e f : Int) :
    Rank.compare ⟨-1, -e, -m⟩ ⟨-1, -f, -n⟩ =
      ((Ord.compare e f).then (Ord.compare m n)).swap := by
  simp only [Rank.compare, compare_neg, compare_natCast, Ordering.swap_then]
  rfl

/-- Numbers compare as their ranks do. -/
theorem compare_eq (a b : UnpackedFloat) :
    a.compare b = (rank? a).bind fun x => (rank? b).map x.compare := by
  cases a with
  | notANumber => rfl
  | infinity s =>
      cases s <;> cases b with
      | infinity t => cases t <;> rfl
      | finite t => cases t <;> rfl
      | _ => rfl
  | zero =>
      cases b with
      | infinity t => cases t <;> rfl
      | finite t => cases t <;> rfl
      | _ => rfl
  | finite s m e =>
      cases b with
      | infinity t => cases s <;> cases t <;> rfl
      | finite t n f =>
          -- of one sign, they compare by exponent and mantissa
          cases s with
          | positive =>
              cases t with
              | positive => exact congrArg some (Rank.compare_positive m n e f).symm
              | negative => rfl
          | negative =>
              cases t with
              | positive => rfl
              | negative => exact congrArg some (Rank.compare_negative m n e f).symm
      | _ => cases s <;> rfl

/-- The rank of a double. -/
def rankOf? (x : Float) : Option Rank := rank? x.toModel.unpack

theorem lt_iff {a b : Float} :
    Scalar.lt a b = true ↔ ∃ x y, rankOf? a = some x ∧ rankOf? b = some y ∧ x.Below y := by
  have hcode : Scalar.lt a b = a.toModel.unpack.lt b.toModel.unpack := by
    rw [Bool.eq_iff_iff]
    exact decide_eq_true_iff.trans decide_eq_true_iff
  rw [hcode, UnpackedFloat.lt, beq_iff_eq, compare_eq]
  simp [rankOf?, Option.bind_eq_some_iff, Rank.compare_eq_lt]

theorem le_iff {a b : Float} :
    Scalar.le a b = true ↔ ∃ x y, rankOf? a = some x ∧ rankOf? b = some y ∧ ¬y.Below x := by
  have hcode : Scalar.le a b = a.toModel.unpack.le b.toModel.unpack := by
    rw [Bool.eq_iff_iff]
    exact decide_eq_true_iff.trans decide_eq_true_iff
  rw [hcode, UnpackedFloat.le, compare_eq, Option.any_eq_true]
  simp [rankOf?, Option.bind_eq_some_iff, Ordering.isLE_iff_ne_gt, Rank.compare_eq_gt]

theorem lt_of_lt_of_le {a b c : Float} (hab : Scalar.lt a b = true) (hbc : Scalar.le b c = true) :
    Scalar.lt a c = true := by
  obtain ⟨x, y, hx, hy, hxy⟩ := lt_iff.mp hab
  obtain ⟨y', z, hy', hz, hyz⟩ := le_iff.mp hbc
  obtain rfl := Option.some.inj (hy.symm.trans hy')
  exact lt_iff.mpr ⟨x, z, hx, hz, Rank.below_of_below_of_not_below hxy hyz⟩

/-! ## Nothing -/

/-- An unpacked double that is neither above nor below zero. -/
theorem eq_zero_or_nan {x : UnpackedFloat} (h : ∀ q ∈ rank? x, q = ⟨0, 0, 0⟩) :
    x = .notANumber ∨ ∃ s, x = .zero s := by
  have hkind : ∀ q ∈ rank? x, q.kind = 0 := fun q hq => congrArg Rank.kind (h q hq)
  cases x with
  | notANumber => exact .inl rfl
  | zero s => exact .inr ⟨s, rfl⟩
  | infinity s => cases s <;> exact absurd (hkind _ rfl) (by simp)
  | finite s => cases s <;> exact absurd (hkind _ rfl) (by simp)

/-- A double is nothing when it has no rank but that of the zeros. -/
theorem isNothing_iff {a : Float} :
    Scalar.IsNothing a ↔ ∀ q ∈ rankOf? a, q = ⟨0, 0, 0⟩ := by
  have hzero : rankOf? (Scalar.zero : Float) = some ⟨0, 0, 0⟩ := rfl
  constructor
  · rintro ⟨habove, hbelow⟩ ⟨kind, exponent, mantissa⟩ hq
    rw [Bool.eq_false_iff, ne_eq, lt_iff] at habove hbelow
    have hup : ¬Rank.Below ⟨0, 0, 0⟩ ⟨kind, exponent, mantissa⟩ := fun h =>
      habove ⟨_, _, hzero, hq, h⟩
    have hdown : ¬Rank.Below ⟨kind, exponent, mantissa⟩ ⟨0, 0, 0⟩ := fun h =>
      hbelow ⟨_, _, hq, hzero, h⟩
    simp only [Rank.Below] at hup hdown
    rw [Rank.mk.injEq]
    omega
  · intro h
    refine ⟨?_, ?_⟩ <;> rw [Bool.eq_false_iff, ne_eq, lt_iff]
    · rintro ⟨p, q, hp, hq, hbelow⟩
      rw [h q hq, ← Option.some.inj (hzero.symm.trans hp)] at hbelow
      unfold Rank.Below at hbelow
      omega
    · rintro ⟨p, q, hp, hq, hbelow⟩
      rw [h p hp, ← Option.some.inj (hzero.symm.trans hq)] at hbelow
      unfold Rank.Below at hbelow
      omega

/-- A packed zero is a zero, and what is packed as no number is none. -/
theorem isNothing_pack {x : UnpackedFloat} (h : x = .notANumber ∨ ∃ s, x = .zero s) :
    ∀ q ∈ rank? (Float.Model.pack x).unpack, q = ⟨0, 0, 0⟩ := by
  rcases h with rfl | ⟨s, rfl⟩
  · intro q hq
    have hnan : rank? (Float.Model.pack .notANumber).unpack = none := rfl
    exact absurd (hq.symm.trans hnan) (Option.some_ne_none q)
  · intro q hq
    have hsigned : rank? (Float.Model.pack (.zero s)).unpack = some ⟨0, 0, 0⟩ := by
      cases s <;> rfl
    exact Option.some.inj (hq.symm.trans hsigned)

instance : Scalar.KeepsNothing Float where
  zero := isNothing_iff.mpr fun q hq => (Option.some.inj hq).symm
  mul {a} ha b := by
    refine isNothing_iff.mpr (isNothing_pack (x := UnpackedFloat.mul Format.binary64 _ _) ?_)
    rcases eq_zero_or_nan (isNothing_iff.mp ha) with h | ⟨s, h⟩ <;> rw [h]
    · exact .inl rfl
    · cases b.toModel.unpack with
      | notANumber => exact .inl rfl
      | infinity => exact .inl rfl
      | zero => exact .inr ⟨_, rfl⟩
      | finite => exact .inr ⟨_, rfl⟩
  div {a} ha b := by
    refine isNothing_iff.mpr (isNothing_pack (x := UnpackedFloat.div Format.binary64 _ _) ?_)
    rcases eq_zero_or_nan (isNothing_iff.mp ha) with h | ⟨s, h⟩ <;> rw [h]
    · exact .inl rfl
    · cases b.toModel.unpack with
      | notANumber => exact .inl rfl
      | zero => exact .inl rfl
      | infinity => exact .inr ⟨_, rfl⟩
      | finite => exact .inr ⟨_, rfl⟩

theorem not_lt_zero_div (y : Float) :
    Scalar.lt Scalar.zero (Scalar.ofNat 0 / y : Float) = false :=
  (Scalar.KeepsNothing.div Scalar.KeepsNothing.zero y).not_above

end CostAudit.Binary64
