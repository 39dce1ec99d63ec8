import CostAudit.Proofs.Config
import CostAudit.Proofs.Verdict

/-!
# Which checks fail

A check that fails is among the failures with the totals it failed on, and
nothing else is (`mem_failures_judge`); each check has its own constructor of
`Violation`, so a violation says by itself which check it came from.

A verification is told here without its own arithmetic. A mean is the whole
number nearest to a quotient of natural numbers, a half going up (`IsMean`),
and a violation holds of some totals when the condition that it names does
(`Violation.Holds`). `Verification.Judges` says that the means are right and
that the violations reported are those that hold, in the order of the
checks; the order is strict, so none is reported twice.

The means are computed in words. Rounding up never leaves the words, because
a mean per unit is at most the total (`toNat_meanPerUnit`).
-/

namespace CostAudit

/-! ## Failures -/

theorem mem_failures_judge {c : Config} {t : Totals} {growth : Bool} {v : Violation} :
    v ∈ (c.judge t growth).failures ↔ some v ∈ c.checks t (.means t growth) := by
  simp [Config.judge]

/-- The check on the honesty of declared bytes. -/
theorem measuredAboveDeclared_mem_judge {c : Config} {t : Totals} {growth : Bool}
    {measured declared : UInt64} :
    .measuredAboveDeclared measured declared ∈ (c.judge t growth).failures ↔
      (c.required.has .memSafe = true ∧ t.probeActive = true ∧ t.underdeclared = true) ∧
        measured = t.measured ∧ declared = t.declaredBytes := by
  rw [mem_failures_judge]
  simp only [Config.checks, List.mem_cons, violationIf, Option.bind]
  -- only the third check can be the one that reports this violation
  cases c.maxMeanBytes <;> cases c.maxMeanSteps <;> cases c.minMeanSteps <;> simp [and_assoc]

/-- Totals of no units are not judged. -/
theorem mem_failures_verify {σ : Type} [Sink σ] {c : Config} {t : Totals} {growth : Bool}
    {sink : σ} {v : Violation} :
    v ∈ (c.verify t growth sink).1.failures ↔ t.units ≠ 0 ∧ v ∈ (c.judge t growth).failures := by
  unfold Config.verify
  split
  · rename_i h
    simp [h]
  · rename_i h
    simp [h]

/-! ## Means -/

/-- A number is the mean of a total over some units of work: it is at most
half a unit from the quotient, and a quotient half a unit above a number
counts up. -/
def IsMean (total units mean : Nat) : Prop :=
  2 * total < 2 * units * mean + units ∧ 2 * units * mean ≤ 2 * total + units

theorem isMean_iff {total units mean : Nat} (h : 0 < units) :
    IsMean total units mean ↔ mean = (total + units / 2) / units := by
  unfold IsMean
  rw [eq_comm, Nat.div_eq_iff h, Nat.mul_assoc, Nat.mul_comm mean units]
  omega

/-- The difference rounds to one or more exactly when it is at least half a
unit. -/
theorem one_le_mean_iff {total units mean : Nat} (h : 0 < units) (hmean : IsMean total units mean) :
    1 ≤ mean ↔ 0 < total ∧ units ≤ total * 2 := by
  rw [(isMean_iff h).mp hmean, Nat.one_le_div_iff h]
  omega

theorem toNat_meanPerUnit (total : UInt64) {units : UInt64} (h : units ≠ 0) :
    (meanPerUnit total units).toNat = (total.toNat + units.toNat / 2) / units.toNat := by
  have hunits : 0 < units.toNat := Nat.pos_of_ne_zero fun h0 => h (UInt64.toNat_inj.mp h0)
  have htotal := total.toNat_lt
  have hle : (total.toNat + units.toNat / 2) / units.toNat ≤ total.toNat := by
    rw [Nat.div_le_iff_le_mul_add_pred hunits]
    have hmul : total.toNat * 1 ≤ units.toNat * total.toNat := by
      rw [Nat.mul_comm units.toNat]
      exact Nat.mul_le_mul_left _ hunits
    omega
  rw [meanPerUnit, if_neg h, toNat_satOfNat]
  omega

theorem isMean_meanPerUnit (total : UInt64) {units : UInt64} (h : units ≠ 0) :
    IsMean total.toNat units.toNat (meanPerUnit total units).toNat := by
  have hunits : 0 < units.toNat := Nat.pos_of_ne_zero fun h0 => h (UInt64.toNat_inj.mp h0)
  exact (isMean_iff hunits).mpr (toNat_meanPerUnit total h)

/-- A word that is the mean is the mean that was computed. -/
theorem isMean_iff_eq_meanPerUnit {total units mean : UInt64} (h : units ≠ 0) :
    IsMean total.toNat units.toNat mean.toNat ↔ mean = meanPerUnit total units := by
  have hunits : 0 < units.toNat := Nat.pos_of_ne_zero fun h0 => h (UInt64.toNat_inj.mp h0)
  rw [isMean_iff hunits, ← toNat_meanPerUnit total h, UInt64.toNat_inj]

/-! ## Violations -/

/-- The condition under which a check fails, and the numbers it then
reports. -/
def Violation.Holds (c : Config) (t : Totals) (growth : Bool) : Violation → Prop
  | measuredAboveMax mean max =>
    c.maxMeanBytes = some max ∧ t.probeActive = true ∧
      IsMean t.measured.toNat t.units.toNat mean.toNat ∧ max < mean
  | declaredAboveMax mean max =>
    c.maxMeanBytes = some max ∧ c.required.has .memSafe = true ∧
      IsMean t.declaredBytes.toNat t.units.toNat mean.toNat ∧ max < mean
  | measuredAboveDeclared measured declared =>
    (c.required.has .memSafe = true ∧ t.probeActive = true ∧
      ∃ excess, IsMean (t.measured.toNat - t.declaredBytes.toNat) t.units.toNat excess ∧
        1 ≤ excess) ∧ measured = t.measured ∧ declared = t.declaredBytes
  | stepsAboveMax mean max =>
    c.maxMeanSteps = some max ∧
      IsMean t.declaredSteps.toNat t.units.toNat mean.toNat ∧ max < mean
  | stepsBelowMin mean min =>
    c.minMeanSteps = some min ∧
      IsMean t.declaredSteps.toNat t.units.toNat mean.toNat ∧ mean < min
  | undeclaredCpuGrowth =>
    c.required.has .cpuSafe = true ∧ c.maxMeanSteps = none ∧ growth = true

/-- The place of a violation in the order of the checks. -/
def Violation.place : Violation → Nat
  | measuredAboveMax .. => 0
  | declaredAboveMax .. => 1
  | measuredAboveDeclared .. => 2
  | stepsAboveMax .. => 3
  | stepsBelowMin .. => 4
  | undeclaredCpuGrowth => 5

/-- What a verification says of some totals is right and complete. -/
structure Verification.Judges (c : Config) (t : Totals) (growth : Bool) (v : Verification) :
    Prop where
  meanMeasured : IsMean t.measured.toNat t.units.toNat v.meanMeasured.toNat
  meanDeclared : IsMean t.declaredBytes.toNat t.units.toNat v.meanDeclared.toNat
  meanSteps : IsMean t.declaredSteps.toNat t.units.toNat v.meanSteps.toNat
  growth_eq : v.growth = growth
  reported : ∀ x, x ∈ v.failures ↔ x.Holds c t growth
  ordered : v.failures.Pairwise fun x y => x.place < y.place

section

variable {c : Config} {t : Totals} {growth : Bool}

theorem some_eq_violationIf {condition : Bool} {x y : Violation} :
    some x = violationIf condition y ↔ condition = true ∧ x = y := by
  unfold violationIf
  split <;> rename_i h <;> simp [h]

theorem some_eq_bind {bound : Option UInt64} {check : UInt64 → Option Violation} {x : Violation} :
    some x = bound.bind check ↔ ∃ limit, bound = some limit ∧ some x = check limit := by
  rw [eq_comm, Option.bind_eq_some_iff]
  simp only [eq_comm]

theorem underdeclared_iff (h : t.units ≠ 0) :
    t.underdeclared = true ↔
      ∃ excess, IsMean (t.measured.toNat - t.declaredBytes.toNat) t.units.toNat excess ∧
        1 ≤ excess := by
  have hunits : 0 < t.units.toNat := Nat.pos_of_ne_zero fun h0 => h (UInt64.toNat_inj.mp h0)
  have hcode : t.underdeclared = true ↔
      0 < t.measured.toNat - t.declaredBytes.toNat ∧
        t.units.toNat ≤ (t.measured.toNat - t.declaredBytes.toNat) * 2 := by
    rw [Totals.underdeclared, Bool.and_eq_true, decide_eq_true_eq, decide_eq_true_eq,
      UInt64.lt_iff_toNat_lt, Nat.sub_pos_iff_lt]
  rw [hcode]
  constructor
  · intro hexcess
    exact ⟨_, (isMean_iff hunits).mpr rfl,
      (one_le_mean_iff hunits ((isMean_iff hunits).mpr rfl)).mpr hexcess⟩
  · rintro ⟨excess, hmean, hexcess⟩
    exact (one_le_mean_iff hunits hmean).mp hexcess

/-- A check against a bound reports the mean and the bound. -/
theorem exists_limit_iff {bound : Option UInt64} {fails : UInt64 → Prop} {mean limit m : UInt64} :
    (∃ l, bound = some l ∧ fails l ∧ mean = m ∧ limit = l) ↔
      bound = some limit ∧ mean = m ∧ fails limit := by
  constructor
  · rintro ⟨l, hbound, hfails, hmean, rfl⟩
    exact ⟨hbound, hmean, hfails⟩
  · rintro ⟨hbound, hmean, hfails⟩
    exact ⟨limit, hbound, hfails, hmean, rfl⟩

/-- A check reports its own violation exactly when the violation holds. -/
theorem some_mem_checks_iff (h : t.units ≠ 0) (x : Violation) :
    some x ∈ c.checks t (.means t growth) ↔ x.Holds c t growth := by
  simp only [Config.checks, List.mem_cons, List.not_mem_nil, or_false, some_eq_violationIf,
    some_eq_bind, Bool.and_eq_true, decide_eq_true_eq]
  -- the other five checks report violations of other kinds
  cases x with
  | measuredAboveDeclared measured declared =>
      simp [Violation.Holds, underdeclared_iff h, and_assoc]
  | undeclaredCpuGrowth =>
      simp [Violation.Holds, Verification.means, and_assoc]
  | _ mean limit =>
      simp only [reduceCtorEq, and_false, exists_false, or_false, false_or,
        Violation.measuredAboveMax.injEq, Violation.declaredAboveMax.injEq,
        Violation.stepsAboveMax.injEq, Violation.stepsBelowMin.injEq, exists_limit_iff,
        Violation.Holds, isMean_iff_eq_meanPerUnit h, Verification.means]
      grind

/-- The checks report violations of the place that they have in the list. -/
theorem place_of_getElem_checks {means : Verification} {k : Nat}
    (hk : k < (c.checks t means).length) {x : Violation} (hx : (c.checks t means)[k] = some x) :
    x.place = k := by
  have hlength : k < 6 := hk
  have hx := hx.symm
  obtain rfl | rfl | rfl | rfl | rfl | rfl :
      k = 0 ∨ k = 1 ∨ k = 2 ∨ k = 3 ∨ k = 4 ∨ k = 5 := by omega
  all_goals
    simp only [Config.checks, List.getElem_cons_zero, List.getElem_cons_succ, some_eq_bind,
      some_eq_violationIf] at hx
    grind [Violation.place]

theorem pairwise_place_judge : (c.judge t growth).failures.Pairwise
    fun x y => x.place < y.place := by
  rw [Config.judge, List.pairwise_filterMap, List.pairwise_iff_getElem]
  intro i j hi hj hij x hx y hy
  rw [place_of_getElem_checks hi hx, place_of_getElem_checks hj hy]
  exact hij

theorem judges_judge (h : t.units ≠ 0) : (c.judge t growth).Judges c t growth where
  meanMeasured := isMean_meanPerUnit t.measured h
  meanDeclared := isMean_meanPerUnit t.declaredBytes h
  meanSteps := isMean_meanPerUnit t.declaredSteps h
  growth_eq := rfl
  reported x := mem_failures_judge.trans (some_mem_checks_iff h x)
  ordered := pairwise_place_judge

/-- A mean above the greatest and below the least allowed one shows that the
bounds cross. -/
theorem lt_of_holds_steps {mean mean' max min : UInt64} (h : t.units ≠ 0)
    (habove : (Violation.stepsAboveMax mean max).Holds c t growth)
    (hbelow : (Violation.stepsBelowMin mean' min).Holds c t growth) :
    max < min ∧ ¬c.Usable := by
  obtain ⟨hmax, habove, hlt⟩ := habove
  obtain ⟨hmin, hbelow, hlt'⟩ := hbelow
  rw [isMean_iff_eq_meanPerUnit h] at habove hbelow
  rw [habove] at hlt
  rw [hbelow] at hlt'
  have hcross : max < min := UInt64.lt_trans hlt hlt'
  exact ⟨hcross, fun husable => UInt64.not_le.mpr hcross (husable.steps min hmin max hmax)⟩

end

/-! ## The verification -/

theorem logs_foldl_fail (messages : List String) (r : Transcript) :
    (messages.foldl Sink.fail r).logs = r.logs := by
  induction messages generalizing r with
  | nil => rfl
  | cons m ms ih => exact ih (Sink.fail r m)

theorem verify_eq_judge {c : Config} {t : Totals} (growth : Bool) (r : Transcript)
    (h : t.units ≠ 0) :
    c.verify t growth r =
      (c.judge t growth, (c.judge t growth).messages.foldl Sink.fail r) := by
  rw [Config.verify, if_neg h]

/-- **What a verification reports.** Of totals with some units of work the
means are the quotients rounded to the nearest whole number, and a violation
is reported exactly when it holds, each in its place and once. The messages
of the violations are added to the failures recorded before, in the same
order, and nothing is logged. The mean of the steps is never found both above
the greatest and below the least mean allowed, unless these cross, which no
usable configuration has. -/
theorem verify_judges (c : Config) (t : Totals) (growth : Bool) (r : Transcript)
    (h : 0 < t.units) :
    (c.verify t growth r).1.Judges c t growth ∧
      ((c.verify t growth r).1.passed = true ↔ ∀ x : Violation, ¬x.Holds c t growth) ∧
      (c.verify t growth r).2.failures.toList =
        r.failures.toList ++ (c.verify t growth r).1.messages ∧
      (c.verify t growth r).2.logs = r.logs ∧
      ∀ mean max mean' min, .stepsAboveMax mean max ∈ (c.verify t growth r).1.failures →
        .stepsBelowMin mean' min ∈ (c.verify t growth r).1.failures →
        max < min ∧ c.validate ≠ .ok () := by
  have hunits : t.units ≠ 0 := UInt64.pos_iff_ne_zero.mp h
  have hjudges : (c.judge t growth).Judges c t growth := judges_judge hunits
  refine ⟨?_, ?_, failures_verify c t growth r, ?_, ?_⟩ <;> rw [verify_eq_judge growth r hunits]
  · exact hjudges
  · rw [Verification.passed, List.isEmpty_iff, List.eq_nil_iff_forall_not_mem]
    exact forall_congr' fun x => not_congr (hjudges.reported x)
  · exact logs_foldl_fail _ r
  · intro mean max mean' min habove hbelow
    have hcross := lt_of_holds_steps hunits ((hjudges.reported _).mp habove)
      ((hjudges.reported _).mp hbelow)
    exact ⟨hcross.1, fun hvalid => hcross.2 (Config.validate_eq_ok_iff.mp hvalid)⟩

/-- Three units of work and bytes next to the greatest word: every check on
memory fails, the last one for an excess of two bytes, and so do the least
mean of steps and the growth of the time. -/
theorem verify_of_three_units :
    let c : Config := {
      required := .ofList [.memSafe, .cpuSafe]
      maxMeanBytes := some 5
      minMeanSteps := some 2 }
    let t : Totals := {
      units := 3
      measured := 18446744073709551615
      declaredBytes := 18446744073709551613
      declaredSteps := 4
      probeActive := true }
    let r : Transcript := { failures := #["earlier"], logs := #["line"] }
    0 < t.units ∧
      (c.verify t true r).1.failures =
        [.measuredAboveMax 6148914691236517205 5, .declaredAboveMax 6148914691236517204 5,
          .measuredAboveDeclared 18446744073709551615 18446744073709551613,
          .stepsBelowMin 1 2, .undeclaredCpuGrowth] ∧
      (c.verify t true r).1.Judges c t true ∧
      (c.verify t true r).2.failures.toList = "earlier" :: (c.verify t true r).1.messages := by
  intro c t r
  have h : 0 < t.units := by decide
  obtain ⟨hjudges, -, hfailures, -⟩ := verify_judges c t true r h
  exact ⟨h, by decide, hjudges, hfailures⟩

/-- Bounds that cross can both be broken. -/
example :
    ((⟨.empty, none, some 0, some 2, 1, 1, .ofNanos 1, 1, 1, false, false⟩ : Config).judge
      ⟨1, 0, 0, 1, false⟩ false).failures = [.stepsAboveMax 1 0, .stepsBelowMin 1 2] := by
  decide

end CostAudit
