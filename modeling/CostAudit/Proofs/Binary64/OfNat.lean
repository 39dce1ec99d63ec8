import CostAudit.Proofs.Binary64.Compare

/-!
# Natural numbers as doubles

A count of any size becomes a double with a mantissa of fifty-three bits: it
is scaled by a power of two, cut to these bits and rounded to the nearest,
and a rounding that carries moves the exponent by one
(`roundWithAccuracy_eq`). Rounding keeps the order of the mantissas at one
exponent, and a carry ends at the least mantissa of the next, so a larger
count never becomes a smaller double (`ofNat_le`); the largest become
infinite. With it the doubles are numbers that keep the order of counts.
-/

namespace CostAudit.Binary64

open Float.Model Float.Model.UnpackedFloat

/-! ## Rounding a mantissa -/

/-- A mantissa with its two residual bits, as one number. -/
def code (m : ExtendedMantissa) : Nat :=
  4 * m.mantissa + 2 * m.roundBit.toNat + m.stickyBit.toNat

theorem code_shiftRightOne_le {x y : ExtendedMantissa} (h : code x ≤ code y) :
    code x.shiftRightOne ≤ code y.shiftRightOne := by
  obtain ⟨m, r, s⟩ := x
  obtain ⟨n, r', s'⟩ := y
  have hbit (k : Nat) : (k % 2 != 0).toNat = k % 2 := by
    rcases Nat.mod_two_eq_zero_or_one k with h | h <;> rw [h] <;> rfl
  simp only [code, ExtendedMantissa.shiftRightOne, hbit] at h ⊢
  cases r <;> cases s <;> cases r' <;> cases s' <;>
    simp only [Bool.toNat_true, Bool.toNat_false, Bool.or_true, Bool.or_false] at h ⊢ <;> omega

theorem code_shift_le {x y : ExtendedMantissa} (h : code x ≤ code y) (k : Nat) :
    code (x >>> k) ≤ code (y >>> k) := by
  induction k with
  | zero => exact h
  | succ k ih => exact code_shiftRightOne_le ih

theorem roundedMantissa_le {x y : ExtendedMantissa} (h : code x ≤ code y) :
    x.roundedMantissa ≤ y.roundedMantissa := by
  obtain ⟨m, r, s⟩ := x
  obtain ⟨n, r', s'⟩ := y
  simp only [code] at h
  cases r <;> cases s <;> cases r' <;> cases s' <;>
    simp only [Bool.toNat_true, Bool.toNat_false, ExtendedMantissa.roundedMantissa,
      ExtendedMantissa.accuracy, Accuracy.roundToNearestEven] at h ⊢ <;> omega

theorem mantissa_shift (x : ExtendedMantissa) (k : Nat) :
    (x >>> k).mantissa = x.mantissa / 2 ^ k := by
  induction k with
  | zero => exact (Nat.div_one _).symm
  | succ k ih =>
      have hstep : (x >>> (k + 1)).mantissa = (x >>> k).mantissa / 2 := rfl
      rw [hstep, ih, Nat.div_div_eq_div_mul, Nat.pow_succ]

theorem roundedMantissa_bounds (x : ExtendedMantissa) :
    x.mantissa ≤ x.roundedMantissa ∧ x.roundedMantissa ≤ x.mantissa + 1 := by
  obtain ⟨m, r, s⟩ := x
  cases r <;> cases s <;>
    simp only [ExtendedMantissa.roundedMantissa, ExtendedMantissa.accuracy,
      Accuracy.roundToNearestEven] <;> omega

/-- A number without its last `k` bits, rounded to the nearest, a half going
to the even neighbour. -/
def rounded (n k : Nat) : Nat :=
  (ExtendedMantissa.ofMantissaAndAccuracy n .exact >>> k).roundedMantissa

theorem rounded_mono {m n : Nat} (h : m ≤ n) (k : Nat) : rounded m k ≤ rounded n k :=
  roundedMantissa_le (code_shift_le (by
    simp only [code, ExtendedMantissa.ofMantissaAndAccuracy]
    omega) k)

/-- Of a number with `k` bits too many, fifty-three bits are left, or the
least number with one more. -/
theorem rounded_bounds {n k : Nat} (hn : n ≠ 0) (hk : n.log2 = 52 + k) :
    2 ^ 52 ≤ rounded n k ∧ rounded n k ≤ 2 ^ 53 := by
  have hbounds := roundedMantissa_bounds (ExtendedMantissa.ofMantissaAndAccuracy n .exact >>> k)
  rw [mantissa_shift] at hbounds
  have hlow : 2 ^ 52 ≤ n / 2 ^ k := by
    rw [Nat.le_div_iff_mul_le (Nat.two_pow_pos k), ← Nat.pow_add, ← hk]
    exact Nat.log2_self_le hn
  have hhigh : n / 2 ^ k < 2 ^ 53 := by
    rw [Nat.div_lt_iff_lt_mul (Nat.two_pow_pos k), ← Nat.pow_add]
    have hlt := Nat.lt_log2_self (n := n)
    rwa [show n.log2 + 1 = 53 + k by omega] at hlt
  exact ⟨hlow.trans hbounds.1, hbounds.2.trans hhigh⟩

/-! ## Packing -/

theorem log2_eq {m : Nat} (hlow : 2 ^ 52 ≤ m) (hhigh : m < 2 ^ 53) : m.log2 = 52 :=
  (Nat.log2_eq_iff (by omega)).mpr ⟨hlow, hhigh⟩

theorem finite_congr {s t : Sign} {m n : Nat} {e f : Int} {hm : 0 < m} {hn : 0 < n} (hst : s = t)
    (hmn : m = n) (hef : e = f) : UnpackedFloat.finite s m e hm = .finite t n f hn := by
  subst hst hmn hef
  rfl

theorem toNat_append_one (m : BitVec 52) : (1#1 ++ m).toNat = 2 ^ 52 + m.toNat := by
  rw [BitVec.toNat_append, ← Nat.shiftLeft_add_eq_or_of_lt m.isLt]
  rfl

theorem unpackSign_positive (field : BitVec 11) (m : BitVec 52) :
    unpackSign (packComponents Format.binary64 .positive field m) = 0#1 := by
  have htop : (0#1 ++ field ++ m).getLsbD 63 = false := by
    rw [BitVec.getLsbD_append, BitVec.getLsbD_append]
    rfl
  refine BitVec.eq_of_getLsbD_eq fun i hi => ?_
  obtain rfl : i = 0 := by omega
  exact (BitVec.getLsbD_extractLsb ..).trans htop

theorem unpack_packComponents {field m : Nat} {e : Int} (hpos : 0 < m) (hlow : 2 ^ 52 ≤ m)
    (hhigh : m < 2 ^ 53) (hfield : (field : Int) = e + 1075) (hmin : -1074 ≤ e) (hmax : e ≤ 971) :
    UnpackedFloat.unpack Format.binary64 (packComponents Format.binary64 .positive
      (BitVec.ofNat 11 field) (BitVec.ofNat 52 m)) = .finite .positive m e hpos := by
  have htoNat : (BitVec.ofNat 11 field).toNat = field := by
    rw [BitVec.toNat_ofNat, Nat.mod_eq_of_lt (by omega)]
  have hones : BitVec.ofNat 11 field ≠ -1#11 := by
    intro h
    have hvalue : field = (-1#11).toNat := htoNat.symm.trans (congrArg BitVec.toNat h)
    rw [show (-1#11).toNat = 2047 from rfl] at hvalue
    omega
  have hzero : BitVec.ofNat 11 field ≠ 0#11 := by
    intro h
    have hvalue : field = (0#11).toNat := htoNat.symm.trans (congrArg BitVec.toNat h)
    rw [show (0#11).toNat = 0 from rfl] at hvalue
    omega
  have hmantissa : (1#1 ++ BitVec.ofNat 52 m).toNat = m := by
    rw [toNat_append_one, BitVec.toNat_ofNat]
    omega
  -- Neither of the exponents that are set aside, so the double is normal.
  refine (if_neg ?_).trans ((if_neg ?_).trans (finite_congr ?_ ?_ ?_))
  · rwa [unpackExponent_packComponents]
  · rwa [unpackExponent_packComponents]
  · rw [unpackSign_positive]
    rfl
  · rw [unpackMantissa_packComponents, hmantissa]
  · have hbias : ((Format.binary64.exponentBias : Int) +
        Format.binary64.mantissaBitsWithoutImplicit) = 1075 := rfl
    rw [unpackExponent_packComponents, htoNat, hbias, hfield]
    omega

/-- A normal double survives packing. -/
theorem unpack_pack {m : Nat} {e : Int} (hpos : 0 < m) (hlow : 2 ^ 52 ≤ m) (hhigh : m < 2 ^ 53)
    (hmin : -1074 ≤ e) (hmax : e ≤ 971) :
    (Float.Model.pack (.finite .positive m e hpos)).unpack = .finite .positive m e hpos := by
  have hfits : ¬2 ^ 11 ≤ (e + 1023 + 52).toNat + 1 := by omega
  have hnormal : m.log2 + 1 = Format.binary64.mantissaBits := by
    rw [log2_eq hlow hhigh]
    rfl
  have hpack : UnpackedFloat.pack Format.binary64 (.finite .positive m e hpos) =
      packComponents Format.binary64 .positive (BitVec.ofNat 11 (e + 1023 + 52).toNat)
        (BitVec.ofNat 52 m) := (if_neg hfits).trans (if_pos hnormal)
  have hfield : ((e + 1023 + 52).toNat : Int) = e + 1075 := by omega
  have hunpack := unpack_packComponents hpos hlow hhigh hfield hmin hmax
  rw [← hpack] at hunpack
  exact hunpack

/-- A double whose exponent is too large becomes infinite. -/
theorem unpack_pack_of_lt {m : Nat} {e : Int} (hpos : 0 < m) (hmax : 971 < e) :
    (Float.Model.pack (.finite .positive m e hpos)).unpack = .infinity .positive := by
  have hlarge : 2 ^ 11 ≤ (e + 1023 + 52).toNat + 1 := by omega
  have hpack : UnpackedFloat.pack Format.binary64 (.finite .positive m e hpos) =
      packedInfinity Format.binary64 .positive := if_pos hlarge
  have hunpack : UnpackedFloat.unpack Format.binary64
      (packedInfinity Format.binary64 .positive) = .infinity .positive := rfl
  rw [← hpack] at hunpack
  exact hunpack

/-- The rank of the double with a mantissa of fifty-three bits and an
exponent. -/
def rankAt (m : Nat) (e : Int) : Rank := if e ≤ 971 then ⟨1, e, m⟩ else ⟨2, 0, 0⟩

theorem rank?_unpack_pack {m : Nat} {e : Int} (hpos : 0 < m) (hlow : 2 ^ 52 ≤ m)
    (hhigh : m < 2 ^ 53) (hmin : -1074 ≤ e) :
    rank? (Float.Model.pack (.finite .positive m e hpos)).unpack = some (rankAt m e) := by
  rcases lt_or_ge 971 e with hlarge | hmax
  · rw [unpack_pack_of_lt hpos hlarge, rankAt, if_neg (Int.not_le.mpr hlarge)]
    rfl
  · rw [unpack_pack hpos hlow hhigh hmin hmax, rankAt, if_pos hmax]
    rfl

/-! ## Rounding -/

theorem targetExponent_eq (m : Nat) (e : Int) :
    Format.binary64.targetExponent (totalExponent m e) = max (m.log2 + e - 52) (-1074) := by
  have hbits : (Format.binary64.mantissaBits : Int) = 53 := rfl
  have hmin : Format.binary64.minExponent = -1074 := rfl
  rw [Format.targetExponent, totalExponent, hbits, hmin]
  omega

theorem shiftToTargetExponent_eq {m k : Nat} {e : Int}
    (hk : max (m.log2 + e - 52) (-1074) = e + k) :
    shiftToTargetExponent Format.binary64 m e .exact =
      (ExtendedMantissa.ofMantissaAndAccuracy m .exact >>> k, e + k) := by
  have hshift : (max ((m.log2 : Int) + e - 52) (-1074) - e).toNat = k := by omega
  rw [shiftToTargetExponent, targetExponent_eq, shiftToExponent, hshift]

/-- The mantissa and the exponent after a rounding that may have carried. -/
def carried (r : Nat) (e : Int) : Nat × Int := if r = 2 ^ 53 then (2 ^ 52, e + 1) else (r, e)

theorem carried_bounds {r : Nat} {e : Int} (hlow : 2 ^ 52 ≤ r) (hhigh : r ≤ 2 ^ 53) :
    2 ^ 52 ≤ (carried r e).1 ∧ (carried r e).1 < 2 ^ 53 ∧
      ((carried r e).2 = e ∨ (carried r e).2 = e + 1 ∧ (carried r e).1 = 2 ^ 52) := by
  have hpow : 2 ^ 52 < 2 ^ 53 := by decide
  unfold carried
  split
  · exact ⟨Nat.le_refl _, hpow, Or.inr ⟨rfl, rfl⟩⟩
  · exact ⟨hlow, by omega, Or.inl rfl⟩

theorem carried_mono {r r' : Nat} {e : Int} (h : r ≤ r') (hhigh : r' ≤ 2 ^ 53) :
    (carried r e).2 < (carried r' e).2 ∨
      (carried r e).2 = (carried r' e).2 ∧ (carried r e).1 ≤ (carried r' e).1 := by
  unfold carried
  by_cases hr' : r' = 2 ^ 53
  · rw [if_pos hr']
    by_cases hr : r = 2 ^ 53
    · rw [if_pos hr]
      exact Or.inr ⟨rfl, Nat.le_refl _⟩
    · rw [if_neg hr]
      exact Or.inl (Int.lt_succ e)
  · rw [if_neg hr', if_neg (by omega)]
    exact Or.inr ⟨rfl, h⟩

/-- A carry takes one more shift, which is exact. -/
theorem shift_carried {r : Nat} {e : Int} (hlow : 2 ^ 52 ≤ r) (hhigh : r ≤ 2 ^ 53)
    (hmin : -1074 ≤ e) :
    (shiftToTargetExponent Format.binary64 r e .exact).1.mantissa = (carried r e).1 ∧
      (shiftToTargetExponent Format.binary64 r e .exact).2 = (carried r e).2 := by
  unfold carried
  split
  · rename_i hcarry
    have hlog : r.log2 = 53 := by rw [hcarry, Nat.log2_two_pow]
    rw [shiftToTargetExponent_eq (k := 1) (by omega), mantissa_shift, hcarry]
    exact ⟨rfl, rfl⟩
  · rename_i hcarry
    have hlog : r.log2 = 52 := log2_eq hlow (by omega)
    rw [shiftToTargetExponent_eq (k := 0) (by omega)]
    exact ⟨rfl, Int.add_zero e⟩

theorem roundWithAccuracy_eq {m k : Nat} {e : Int} (hm : m ≠ 0) (hk : m.log2 = 52 + k)
    (hmin : -1074 ≤ e + k) :
    ∃ hpos, roundWithAccuracy Format.binary64 .positive m e .exact = .finite .positive
      (carried (rounded m k) (e + k)).1 (carried (rounded m k) (e + k)).2 hpos := by
  obtain ⟨hlow, hhigh⟩ := rounded_bounds hm hk
  obtain ⟨hmantissa, hexponent⟩ := shift_carried hlow hhigh hmin
  have hpos : 0 < (carried (rounded m k) (e + k)).1 :=
    Nat.lt_of_lt_of_le (Nat.two_pow_pos 52) (carried_bounds hlow hhigh).1
  have hround : roundWithAccuracy Format.binary64 .positive m e .exact =
      let first := shiftToTargetExponent Format.binary64 m e .exact
      let second :=
        shiftToTargetExponent Format.binary64 first.1.roundedMantissa first.2 .exact
      if h : second.1.mantissa = 0 then .zero .positive
      else .finite .positive second.1.mantissa second.2 (Nat.pos_of_ne_zero h) := rfl
  rw [shiftToTargetExponent_eq (m := m) (e := e) (k := k) (by omega)] at hround
  refine ⟨hpos, hround.trans ((dif_neg ?_).trans (finite_congr rfl hmantissa hexponent))⟩
  exact Nat.ne_of_gt (hmantissa.symm ▸ hpos)

/-! ## Natural numbers as doubles -/

theorem log2_mul_two_pow {n : Nat} (hn : n ≠ 0) (k : Nat) : (n * 2 ^ k).log2 = n.log2 + k := by
  rw [Nat.log2_eq_iff (Nat.mul_ne_zero hn (Nat.two_pow_pos k).ne')]
  have hlow := Nat.log2_self_le hn
  have hhigh := Nat.lt_log2_self (n := n)
  constructor
  · rw [Nat.pow_add]
    exact Nat.mul_le_mul_right _ hlow
  · rw [show n.log2 + k + 1 = n.log2 + 1 + k by omega, Nat.pow_add]
    exact Nat.mul_lt_mul_of_pos_right hhigh (Nat.two_pow_pos k)

/-- The power of two by which a number is scaled before it is rounded. A
number that fits the mantissa goes through a product with one. -/
def scale (n : Nat) : Nat := if n.log2 < 53 then 104 - n.log2 else 53

theorem carried_rounded_zero {m : Nat} {e : Int} (h : m < 2 ^ 53) :
    carried (rounded m 0) e = (m, e) := if_neg (Nat.ne_of_lt h)

/-- A number that fits the mantissa keeps its value. -/
theorem unpack_ofNat {n : Nat} (hn : n ≠ 0) (h : n < 2 ^ 53) :
    ∃ hpos, (Float.Model.ofNat n).unpack =
      .finite .positive (n * 2 ^ (52 - n.log2)) (n.log2 - 52) hpos := by
  have hlt := (Nat.log2_lt hn).mpr h
  have hlog : (n * 2 ^ (52 - n.log2)).log2 = 52 + 0 := by
    rw [log2_mul_two_pow hn]
    omega
  have hne : n * 2 ^ (52 - n.log2) ≠ 0 := Nat.mul_ne_zero hn (Nat.two_pow_pos _).ne'
  obtain ⟨hlow, hhigh⟩ := (Nat.log2_eq_iff hne).mp hlog
  have hround : UnpackedFloat.ofNat Format.binary64 n =
      roundWithAccuracy Format.binary64 .positive (n * 2 ^ (52 - n.log2)) (n.log2 - 52) .exact := by
    have hcompare : compare (n : Int) 0 = .gt := Int.compare_eq_gt.mpr (by omega)
    rw [UnpackedFloat.ofNat, UnpackedFloat.ofInt, UnpackedFloat.normalize, hcompare]
    simp only [UnpackedFloat.round, targetExponent_eq, decreaseExponent, Nat.shiftLeft_eq,
      Int.toNat_natCast]
    have hshift : (0 - max ((n.log2 : Int) + 0 - 52) (-1074)).toNat = 52 - n.log2 := by omega
    have hexponent : (0 : Int) - ((52 - n.log2 : Nat) : Int) = n.log2 - 52 := by omega
    rw [hshift, hexponent]
  obtain ⟨hpos, hfinite⟩ := roundWithAccuracy_eq (e := (n.log2 : Int) - 52) hne hlog (by omega)
  have hcarried : carried (rounded (n * 2 ^ (52 - n.log2)) 0) (n.log2 - 52 + (0 : Nat)) =
      (n * 2 ^ (52 - n.log2), (n.log2 : Int) - 52) := by
    rw [carried_rounded_zero hhigh]
    simp
  refine ⟨Nat.pos_of_ne_zero hne, ?_⟩
  have hpack : (Float.Model.ofNat n).unpack =
      (Float.Model.pack (UnpackedFloat.ofNat Format.binary64 n)).unpack := rfl
  rw [hpack, hround, hfinite]
  rw [← unpack_pack (Nat.pos_of_ne_zero hne) hlow hhigh (by omega) (by omega)]
  refine congrArg (fun x => (Float.Model.pack x).unpack) (finite_congr rfl ?_ ?_)
  · rw [hcarried]
  · rw [hcarried]

theorem mul_finite {m n : Nat} {e f : Int} (hm : 0 < m) (hn : 0 < n) :
    UnpackedFloat.mul Format.binary64 (.finite .positive m e hm) (.finite .positive n f hn) =
      roundWithAccuracy Format.binary64 .positive (m * n) (e + f) .exact := rfl

theorem toModel_ofNat {n : Nat} (hn : n ≠ 0) :
    (Float.ofNat n).toModel = Float.Model.pack (roundWithAccuracy Format.binary64 .positive
      (n * 2 ^ scale n) (-scale n) .exact) := by
  unfold scale
  split
  · rename_i hlt
    have hsmall : n < 2 ^ 53 := (Nat.log2_lt hn).mp hlt
    -- the product with the first power of ten, which is one
    have hone : (Float.exactlyRepresentablePowersOfTen[0]).toModel.unpack =
        .finite .positive (2 ^ 52) (-52) (Nat.two_pow_pos 52) := rfl
    have hword : n.toUInt64.toNat = n := by
      rw [Nat.toUInt64_eq, UInt64.toNat_ofNat']
      omega
    have hcast : n.toUInt64.toFloat.toModel = Float.Model.ofNat n :=
      congrArg Float.Model.ofNat hword
    have hofNat : Float.ofNat n = n.toUInt64.toFloat * Float.exactlyRepresentablePowersOfTen[0] :=
      dif_pos ⟨hsmall, by decide⟩
    have hmul : (n.toUInt64.toFloat * Float.exactlyRepresentablePowersOfTen[0]).toModel =
        Float.Model.pack (UnpackedFloat.mul Format.binary64 n.toUInt64.toFloat.toModel.unpack
          (Float.exactlyRepresentablePowersOfTen[0]).toModel.unpack) := rfl
    obtain ⟨hpos, hunpack⟩ := unpack_ofNat hn hsmall
    rw [hofNat, hmul, hone, hcast, hunpack, mul_finite]
    have hpow : n * 2 ^ (52 - n.log2) * 2 ^ 52 = n * 2 ^ (104 - n.log2) := by
      rw [Nat.mul_assoc, ← Nat.pow_add]
      congr 2
      omega
    have hexponent : (n.log2 : Int) - 52 + -52 = -((104 - n.log2 : Nat) : Int) := by omega
    rw [hpow, hexponent]
  · rename_i hlarge
    have hofNat : Float.ofNat n = .ofModel (Float.Model.ofScientific n 0) :=
      dif_neg fun h => hlarge ((Nat.log2_lt hn).mpr h.1)
    have hpos : 0 < n <<< 53 := by
      rw [Nat.shiftLeft_eq]
      exact Nat.mul_pos (Nat.pos_of_ne_zero hn) (Nat.two_pow_pos 53)
    have hscientific : UnpackedFloat.ofScientific Format.binary64 n 0 =
        UnpackedFloat.mul Format.binary64 (.finite .positive (n <<< 53) (-53) hpos)
          (.finite .positive (10 ^ 0) 0 (Nat.pow_pos (by decide))) :=
      (dif_neg hn).trans ((if_neg (by decide)).trans ((if_neg (by simp)).trans (if_pos (by decide))))
    rw [mul_finite, Nat.shiftLeft_eq, Nat.pow_zero, Nat.mul_one, Int.add_zero] at hscientific
    rw [hofNat]
    exact congrArg Float.Model.pack hscientific

/-! ## The order of the natural numbers -/

/-- The mantissa of a number after rounding, before a carry. -/
def natMantissa (n : Nat) : Nat := rounded (n * 2 ^ scale n) (n.log2 + scale n - 52)

/-- The mantissa and the exponent of a number as a double. -/
def natParts (n : Nat) : Nat × Int := carried (natMantissa n) (n.log2 - 52)

theorem le_log2_add_scale (n : Nat) : 52 ≤ n.log2 + scale n := by
  unfold scale
  split <;> omega

theorem log2_scaled {n : Nat} (hn : n ≠ 0) :
    (n * 2 ^ scale n).log2 = 52 + (n.log2 + scale n - 52) := by
  have hscale := le_log2_add_scale n
  rw [log2_mul_two_pow hn]
  omega

theorem natMantissa_bounds {n : Nat} (hn : n ≠ 0) :
    2 ^ 52 ≤ natMantissa n ∧ natMantissa n ≤ 2 ^ 53 :=
  rounded_bounds (Nat.mul_ne_zero hn (Nat.two_pow_pos _).ne') (log2_scaled hn)

theorem natParts_bounds {n : Nat} (hn : n ≠ 0) :
    2 ^ 52 ≤ (natParts n).1 ∧ (natParts n).1 < 2 ^ 53 ∧
      ((natParts n).2 = n.log2 - 52 ∨
        (natParts n).2 = n.log2 - 52 + 1 ∧ (natParts n).1 = 2 ^ 52) :=
  carried_bounds (natMantissa_bounds hn).1 (natMantissa_bounds hn).2

theorem rankOf?_ofNat {n : Nat} (hn : n ≠ 0) :
    rankOf? (Float.ofNat n) = some (rankAt (natParts n).1 (natParts n).2) := by
  have hscale := le_log2_add_scale n
  have hexponent : -(scale n : Int) + ((n.log2 + scale n - 52 : Nat) : Int) = n.log2 - 52 := by
    omega
  obtain ⟨hlow, hhigh, hcarry⟩ := natParts_bounds hn
  obtain ⟨hpos, hround⟩ := roundWithAccuracy_eq (e := -(scale n : Int))
    (Nat.mul_ne_zero hn (Nat.two_pow_pos (scale n)).ne') (log2_scaled hn) (by omega)
  have hparts : roundWithAccuracy Format.binary64 .positive (n * 2 ^ scale n) (-scale n) .exact =
      .finite .positive (natParts n).1 (natParts n).2
        (Nat.lt_of_lt_of_le (Nat.two_pow_pos 52) hlow) := by
    rw [hround]
    refine finite_congr rfl ?_ ?_ <;> rw [hexponent] <;> rfl
  rw [rankOf?, toModel_ofNat hn, hparts]
  exact rank?_unpack_pack _ hlow hhigh (by omega)

theorem natMantissa_mono {m n : Nat} (h : m ≤ n) (hlog : m.log2 = n.log2) :
    natMantissa m ≤ natMantissa n := by
  unfold natMantissa scale
  rw [hlog]
  exact rounded_mono (Nat.mul_le_mul_right _ h) _

/-- A greater number has the greater mantissa at the same exponent, or the
greater exponent even after a carry. -/
theorem natParts_le {m n : Nat} (hm : m ≠ 0) (hn : n ≠ 0) (h : m ≤ n) :
    (natParts m).2 < (natParts n).2 ∨
      (natParts m).2 = (natParts n).2 ∧ (natParts m).1 ≤ (natParts n).1 := by
  have hlog : m.log2 ≤ n.log2 := (Nat.le_log2 hn).mpr ((Nat.log2_self_le hm).trans h)
  rcases Nat.lt_or_eq_of_le hlog with hlog | hlog
  · have hpartsM := natParts_bounds hm
    have hpartsN := natParts_bounds hn
    omega
  · have hmono := carried_mono (e := (n.log2 : Int) - 52) (natMantissa_mono h hlog)
      (natMantissa_bounds hn).2
    unfold natParts
    rw [hlog]
    exact hmono

theorem not_below_rankAt {m n : Nat} {e f : Int} (h : e < f ∨ e = f ∧ m ≤ n) :
    ¬(rankAt n f).Below (rankAt m e) := by
  unfold rankAt Rank.Below
  split <;> split <;> simp only <;> omega

theorem not_below_zero (m : Nat) (e : Int) : ¬(rankAt m e).Below ⟨0, 0, 0⟩ := by
  unfold rankAt Rank.Below
  split <;> simp only <;> omega

theorem ofNat_le {m n : Nat} (h : m ≤ n) :
    Scalar.le (Scalar.ofNat m : Float) (Scalar.ofNat n) = true := by
  have hzero : rankOf? (Float.ofNat 0) = some ⟨0, 0, 0⟩ := rfl
  rw [le_iff]
  by_cases hm : m = 0
  · subst hm
    by_cases hn : n = 0
    · subst hn
      exact ⟨_, _, hzero, hzero, by unfold Rank.Below; omega⟩
    · exact ⟨_, _, hzero, rankOf?_ofNat hn, not_below_zero _ _⟩
  · have hn : n ≠ 0 := by omega
    exact ⟨_, _, rankOf?_ofNat hm, rankOf?_ofNat hn, not_below_rankAt (natParts_le hm hn h)⟩

instance : Scalar.KeepsOrder Float where
  ofNat_le := ofNat_le
  lt_of_lt_of_le := lt_of_lt_of_le

end CostAudit.Binary64
