import CostAudit.Proofs.Loop.Accounts
import CostAudit.Proofs.Vacuous
import CostAudit.Proofs.Verification
import CostAudit.Scenario.Script
import Mathlib.Algebra.BigOperators.Ring.List

/-!
# Routines that cost what they declare

When every call uses as many bytes and steps per unit as it declares, an
audit judges these rates, whichever sizes the loop has chosen and whichever
calls it has repeated. The totals are sums over the kept calls
(`State.Balanced`), each of which adds the rate times its size; so the totals
are the rates times the units of the run (`atRates_totals`). Nothing
saturates on the way, because the units stay within the sample budget and
the rates times that budget are words. A mean of such totals is the rate
without rounding (`isMean_mul_iff`).
-/

namespace CostAudit

namespace Loop

/-! ## Exact calls -/

/-- The call declares as many bytes and steps for each unit and uses the
bytes that it declares; it keeps nothing alive and does not fail. -/
structure Call.Exact (bytes steps : Nat) (c : Call) : Prop where
  declaredBytes : c.reply.declaredBytes = bytes * c.size.toNat
  declaredSteps : c.reply.declaredSteps = steps * c.size.toNat
  measured : c.after.toNat = c.before.toNat + bytes * c.size.toNat
  keepsNothing : c.reply.kept = []
  succeeds : ¬c.Fails

theorem Call.exact_iff {bytes steps : Nat} {c : Call} :
    c.Exact bytes steps ↔
      c.reply.declaredBytes = bytes * c.size.toNat ∧
        c.reply.declaredSteps = steps * c.size.toNat ∧
        c.after.toNat = c.before.toNat + bytes * c.size.toNat ∧
        c.reply.kept = [] ∧ c.reply.aborted = false ∧ c.reply.failures = [] := by
  have hfails : ¬c.Fails ↔ c.reply.aborted = false ∧ c.reply.failures = [] := by
    simp [Call.Fails]
  rw [← hfails]
  constructor
  · rintro ⟨hbytes, hsteps, hmeasured, hkept, hsucceeds⟩
    exact ⟨hbytes, hsteps, hmeasured, hkept, hsucceeds⟩
  · rintro ⟨hbytes, hsteps, hmeasured, hkept, hsucceeds⟩
    exact ⟨hbytes, hsteps, hmeasured, hkept, hsucceeds⟩

instance (bytes steps : Nat) (c : Call) : Decidable (c.Exact bytes steps) :=
  decidable_of_iff _ Call.exact_iff.symm

theorem Call.Exact.toNat_measured {bytes steps : Nat} {c : Call} (h : c.Exact bytes steps) :
    (c.measured true).toNat = bytes * c.size.toNat := by
  rw [Call.measured, if_pos rfl, toNat_satSub, h.measured]
  omega

theorem Call.Exact.charge_eq {bytes steps room : Nat} {c : Call} (h : c.Exact bytes steps) :
    Retained.charge ⟨room, c⟩ = 0 := by
  simp [Retained.charge, Retained.enlargements, h.keepsNothing, Retention.bytes,
    Retention.enlargements, Retention.newPlaces]

/-! ## Sums over the kept calls -/

theorem map_call_retained (ps : List Pass) (room : Nat) :
    (retained room ps).map Retained.call = ps.map Pass.last := by
  induction ps generalizing room with
  | nil => rfl
  | cons p ps ih => rw [retained, List.map_cons, List.map_cons, ih]

theorem State.call_mem_of_mem_retained {W σ : Type} {s : State W σ} {k : Retained}
    (h : k ∈ s.retained) : k.call ∈ s.calls := by
  have hmem : k.call ∈ s.passes.toList.map Pass.last := by
    rw [← map_call_retained _ 0]
    exact List.mem_map_of_mem h
  obtain ⟨p, hp, hlast⟩ := List.mem_map.mp hmem
  refine List.mem_flatMap.mpr ⟨p, hp, ?_⟩
  rw [Pass.calls_eq, ← hlast]
  exact List.mem_append_right _ (List.mem_singleton_self _)

/-- The ledger of a balanced state is the sum over the kept calls, as far as
it fits. -/
theorem State.Balanced.toNat_ledger {W σ : Type} {s : State W σ} {probeActive : Bool}
    (h : s.Balanced probeActive) :
    s.ledger.bytes.toNat =
        min (s.retained.map fun k => k.call.reply.declaredBytes).sum (2 ^ 64 - 1) ∧
      s.ledger.steps.toNat =
        min (s.retained.map fun k => k.call.reply.declaredSteps).sum (2 ^ 64 - 1) := by
  have hsplit (f : Action → Nat) :
      ((s.retained.flatMap fun k => k.call.reply.actions).map f).sum =
        (s.retained.map fun k => (k.call.reply.actions.map f).sum).sum := by
    rw [List.map_flatMap, List.flatMap_def, List.sum_flatten, List.map_map]
    rfl
  have htotals := Ledger.toNat_recordAll (s.retained.flatMap fun k => k.call.reply.actions) {}
  have hzero : (0 : UInt64).toNat = 0 := rfl
  rw [← h.ledger, hsplit, hsplit, hzero, Nat.zero_add, Nat.zero_add] at htotals
  exact htotals

/-- A sum of amounts at a rate per unit is the rate times the units. -/
theorem sum_map_eq_mul {f : Retained → Nat} {rate : Nat} {ks : List Retained}
    (h : ∀ k ∈ ks, f k = rate * k.call.size.toNat) :
    (ks.map f).sum = rate * (ks.map fun k => k.call.size.toNat).sum := by
  rw [List.map_congr_left h, List.sum_map_mul_left]

/-- The units of a balanced series are those of the kept calls. -/
theorem State.Balanced.units_eq {W σ : Type} {s : State W σ} {probeActive : Bool}
    {budget : UInt64} (h : s.Balanced probeActive) (hfits : s.series.Fits budget) :
    (s.retained.map fun k => k.call.size.toNat).sum = s.series.units.toNat := by
  have hsizes := congrArg (List.map fun p => p.1.toNat) h.samples
  simp only [List.map_map, Function.comp_def] at hsizes
  rw [hfits.units, Series.sizes, List.map_map]
  exact congrArg List.sum hsizes.symm

end Loop

/-! ## Totals at some rates -/

/-- The totals are some rates times the units of work. -/
structure Totals.AtRates (bytes steps : Nat) (t : Totals) : Prop where
  measured : t.measured.toNat = bytes * t.units.toNat
  declaredBytes : t.declaredBytes.toNat = bytes * t.units.toNat
  declaredSteps : t.declaredSteps.toNat = steps * t.units.toNat

section

open Loop

variable {W σ : Type} {r : Run W σ} {bytes steps : Nat}

theorem atRates_totals {budget : UInt64} (hbalanced : r.state.Balanced r.probeActive)
    (hfits : r.state.series.Fits budget) (hactive : r.probeActive = true)
    (hbytes : bytes * budget.toNat < 2 ^ 64) (hsteps : steps * budget.toNat < 2 ^ 64)
    (hexact : ∀ c ∈ r.calls, c.Exact bytes steps) : r.totals.AtRates bytes steps := by
  have hkept : ∀ k ∈ r.state.retained, k.call.Exact bytes steps := fun k hk =>
    hexact k.call (State.call_mem_of_mem_retained hk)
  have hwithin {rate : Nat} (hrate : rate * budget.toNat < 2 ^ 64) :
      rate * r.state.series.units.toNat < 2 ^ 64 :=
    Nat.lt_of_le_of_lt (Nat.mul_le_mul_left _ (UInt64.le_iff_toNat_le.mp hfits.within)) hrate
  have hsum {f : Retained → Nat} {rate : Nat}
      (hf : ∀ k ∈ r.state.retained, f k = rate * k.call.size.toNat) :
      (r.state.retained.map f).sum = rate * r.state.series.units.toNat := by
    rw [sum_map_eq_mul hf, hbalanced.units_eq hfits]
  obtain ⟨hledgerBytes, hledgerSteps⟩ := hbalanced.toNat_ledger
  have hbound := hwithin hbytes
  refine ⟨?measured, ?bytes, ?steps⟩
  case measured =>
    have hmeasured := hsum fun k hk => (hkept k hk).toNat_measured
    have hcharge : (r.state.retained.map Retained.charge).sum =
        0 * r.state.series.units.toNat := hsum fun k hk => by
      rw [(hkept k hk).charge_eq, Nat.zero_mul]
    have hnet := netMeasured_of_balanced hbalanced
    rw [hactive, hmeasured, hcharge, Nat.zero_mul, Nat.zero_min, Nat.sub_zero] at hnet
    exact hnet.trans (Nat.min_eq_left (Nat.le_pred_of_lt hbound))
  case bytes =>
    rw [hsum fun k hk => (hkept k hk).declaredBytes] at hledgerBytes
    exact hledgerBytes.trans (Nat.min_eq_left (Nat.le_pred_of_lt hbound))
  case steps =>
    rw [hsum fun k hk => (hkept k hk).declaredSteps] at hledgerSteps
    exact hledgerSteps.trans (Nat.min_eq_left (Nat.le_pred_of_lt (hwithin hsteps)))

end

/-! ## The verdict on exact rates -/

theorem isMean_mul_iff {rate units mean : Nat} (h : 0 < units) :
    IsMean (rate * units) units mean ↔ mean = rate := by
  have hhalf : units / 2 < units := Nat.div_lt_self h (by decide)
  rw [isMean_iff h, Nat.mul_comm, Nat.mul_add_div h, Nat.div_eq_of_lt hhalf, Nat.add_zero]

/-- The verification says that the routine uses as many bytes and steps per
unit as it declares, and holds these rates against the bounds. -/
structure Config.ReportsRates (c : Config) (bytes steps : Nat) (v : Verification) : Prop where
  meanMeasured : v.meanMeasured.toNat = bytes
  meanDeclared : v.meanDeclared.toNat = bytes
  meanSteps : v.meanSteps.toNat = steps
  honest : ∀ measured declared, .measuredAboveDeclared measured declared ∉ v.failures
  measuredAboveMax : ∀ mean max, .measuredAboveMax mean max ∈ v.failures ↔
    mean = v.meanMeasured ∧ c.maxMeanBytes = some max ∧ max.toNat < bytes
  declaredAboveMax : ∀ mean max, .declaredAboveMax mean max ∈ v.failures ↔
    mean = v.meanDeclared ∧ c.maxMeanBytes = some max ∧ max.toNat < bytes ∧
      c.required.has .memSafe = true
  stepsAboveMax : ∀ mean max, .stepsAboveMax mean max ∈ v.failures ↔
    mean = v.meanSteps ∧ c.maxMeanSteps = some max ∧ max.toNat < steps
  stepsBelowMin : ∀ mean min, .stepsBelowMin mean min ∈ v.failures ↔
    mean = v.meanSteps ∧ c.minMeanSteps = some min ∧ steps < min.toNat

theorem Verification.Judges.reportsRates {c : Config} {t : Totals} {growth : Bool}
    {v : Verification} {bytes steps : Nat} (h : v.Judges c t growth)
    (hrates : t.AtRates bytes steps) (hunits : 0 < t.units.toNat) (hactive : t.probeActive = true) :
    c.ReportsRates bytes steps v := by
  have hmean (rate mean : Nat) : IsMean (rate * t.units.toNat) t.units.toNat mean ↔ mean = rate :=
    isMean_mul_iff hunits
  have hmeasured := h.meanMeasured
  have hdeclared := h.meanDeclared
  have hsteps := h.meanSteps
  rw [hrates.measured, hmean] at hmeasured
  rw [hrates.declaredBytes, hmean] at hdeclared
  rw [hrates.declaredSteps, hmean] at hsteps
  refine ⟨hmeasured, hdeclared, hsteps, ?honest, ?measured, ?declared, ?above, ?below⟩
  case honest =>
    intro measured declared hmem
    obtain ⟨⟨-, -, excess, hexcess, hpos⟩, -, -⟩ := (h.reported _).mp hmem
    rw [hrates.measured, hrates.declaredBytes, Nat.sub_self, ← Nat.zero_mul t.units.toNat,
      hmean] at hexcess
    omega
  all_goals
    intro mean limit
    rw [h.reported, Violation.Holds]
    simp only [hrates.measured, hrates.declaredBytes, hrates.declaredSteps, hmean, hactive,
      UInt64.lt_iff_toNat_lt, ← UInt64.toNat_inj, hmeasured, hdeclared, hsteps]
    grind

/-! ## Audits -/

open Loop (Rig Run Settings)

/-- The findings are on a run with some samples under an active probe, and
every call of the run is exact. -/
structure Findings.Exact {W σ : Type} (bytes steps : Nat) (f : Findings W σ) : Prop where
  active : f.metadata.probeActive = true
  sampled : 1 ≤ f.metadata.samples
  calls : ∀ call ∈ f.calls, call.Exact bytes steps

section

variable {W σ : Type} [Sink σ] {c : Config} {rig : Rig W σ} {sink : σ} {w : W}
variable {bytes steps : Nat}

/-- What the verification makes of a run of exact calls. -/
theorem verify_reportsRates {r : Run W σ} (growth : Bool) (line : σ)
    (hbytes : bytes * c.sampleBudget.toNat < 2 ^ 64)
    (hsteps : steps * c.sampleBudget.toNat < 2 ^ 64)
    (hrun : Loop.run rig (Settings.ofConfig c) sink w = .ok r) (hcompleted : r.wasAborted = false)
    (hactive : r.probeActive = true) (hsampled : 1 ≤ r.state.series.samples.size)
    (hexact : ∀ call ∈ r.calls, call.Exact bytes steps) :
    c.ReportsRates bytes steps (c.verify r.totals growth line).1 := by
  have hfits := Loop.fits_of_run hrun
  have hunits : 0 < r.totals.units.toNat := Nat.lt_of_lt_of_le hsampled hfits.size_le_units
  have hne : r.totals.units ≠ 0 := fun h0 => by simp [h0] at hunits
  have hrates := atRates_totals (Loop.balanced_of_completed hrun hcompleted) hfits hactive
    hbytes hsteps hexact
  rw [Config.verify, if_neg hne]
  exact (judges_judge hne).reportsRates hrates hunits hactive

/-- The result of an audit of exact calls, if there is one. -/
theorem reportsRates_of_audit {f : Findings W σ} {v : Verification}
    (hbytes : bytes * c.sampleBudget.toNat < 2 ^ 64)
    (hsteps : steps * c.sampleBudget.toNat < 2 ^ 64) (haudit : c.audit rig sink w = .ok f)
    (hexact : f.Exact bytes steps) (hresult : f.result? = some v) :
    c.ReportsRates bytes steps v := by
  cases hvalid : c.validate with
  | error e =>
      rw [Config.audit, hvalid] at haudit
      obtain rfl := Except.ok.inj haudit
      cases hresult
  | ok =>
      obtain ⟨r, hrun, hconclude⟩ := exists_audit_eq_conclude c rig sink w hvalid
      obtain rfl := Except.ok.inj (hconclude.symm.trans haudit)
      cases hending : r.ending with
      | aborted =>
          have haborted : r.wasAborted = true := by rw [Run.wasAborted, hending]
          rw [(conclude_of_aborted haborted _).1] at hresult
          cases hresult
      | stopped budget head =>
          obtain ⟨hv, hmetadata, hcalls⟩ := conclude_of_stopped (c := c) (rig.active w).1 hending
          obtain ⟨hactive, hsampled, hcallsExact⟩ := hexact
          rw [hmetadata] at hactive hsampled
          rw [hcalls] at hcallsExact
          have hcompleted : r.wasAborted = false := by rw [Run.wasAborted, hending]
          obtain rfl := Option.some.inj (hv.symm.trans hresult)
          exact verify_reportsRates _ _ hbytes hsteps hrun hcompleted hactive hsampled hcallsExact

/-- An audit of exact calls that reports to a transcript has a result. -/
theorem exists_result_of_exact {W : Type} {rig : Rig W Transcript} {w : W}
    {f : Findings W Transcript} (haudit : c.audit rig {} w = .ok f)
    (hexact : f.Exact bytes steps) : ∃ v, f.result? = some v := by
  cases hvalid : c.validate with
  | error e =>
      rw [Config.audit, hvalid] at haudit
      obtain rfl := Except.ok.inj haudit
      exact absurd hexact.sampled (Nat.not_succ_le_zero 0)
  | ok =>
      obtain ⟨r, hrun, hconclude⟩ := exists_audit_eq_conclude c rig {} w hvalid
      obtain rfl := Except.ok.inj (hconclude.symm.trans haudit)
      have hsink : (c.warned rig {} w).failures = #[] := failures_foldl_note _ _ _
      rcases Loop.clean_or_failed_of_run hsink hrun with
        ⟨hcompleted, hclean⟩ | ⟨haborted, before, last, hcalls, hfails, -⟩
      · obtain ⟨v, hv, -⟩ := conclude_of_completed (c := c) hcompleted hclean.failures
          (rig.active w).1
        exact ⟨v, hv⟩
      · obtain ⟨-, hconcluded⟩ := conclude_of_aborted (c := c) haborted (rig.active w).1
        have hlast := hexact.calls last (by rw [hconcluded, hcalls]; simp)
        exact absurd hfails hlast.succeeds

end

/-- **Exact routines are judged by their rates.** If the rates times the
sample budget are words, an audit that finds every call exact has a result,
which reports these rates. So does the result, if any, of an audit with some
other sink. -/
theorem exact_calls_judged (c : Config) {bytes steps : Nat}
    (hbytes : bytes * c.sampleBudget.toNat < 2 ^ 64)
    (hsteps : steps * c.sampleBudget.toNat < 2 ^ 64) :
    (∀ {W : Type} (rig : Rig W Transcript) (w : W), ∃ f, c.audit rig {} w = .ok f ∧
      (f.Exact bytes steps → ∃ v, f.result? = some v ∧ c.ReportsRates bytes steps v)) ∧
    ∀ {W σ : Type} [Sink σ] (rig : Rig W σ) (sink : σ) (w : W), ∃ f,
      c.audit rig sink w = .ok f ∧
        (f.Exact bytes steps → ∀ v ∈ f.result?, c.ReportsRates bytes steps v) := by
  constructor
  · intro W rig w
    obtain ⟨f, haudit⟩ := exists_audit_eq_ok c rig {} w
    refine ⟨f, haudit, fun hexact => ?_⟩
    obtain ⟨v, hv⟩ := exists_result_of_exact haudit hexact
    exact ⟨v, hv, reportsRates_of_audit hbytes hsteps haudit hexact hv⟩
  · intro W σ _ rig sink w
    obtain ⟨f, haudit⟩ := exists_audit_eq_ok c rig sink w
    exact ⟨f, haudit, fun hexact v hv =>
      reportsRates_of_audit hbytes hsteps haudit hexact hv⟩

/-! A routine with five bytes and two steps per unit, held to four bytes and
three steps. -/

section

open Scenario

def fiveBytes : Script where
  otherwise :=
    [.declareBytes { linear := 5 }, .declareSteps { linear := 2 }, .allocate { linear := 5 },
      .advance { linear := 10 }]

def fourBytesAllowed : Config where
  required := .ofList [.memSafe]
  maxMeanBytes := some 4
  minMeanSteps := some 3
  sampleBudget := 3

theorem exact_calls_judged_of_fiveBytes :
    5 * fourBytesAllowed.sampleBudget.toNat < 2 ^ 64 ∧
      2 * fourBytesAllowed.sampleBudget.toNat < 2 ^ 64 ∧
      ∃ (f : Findings World Transcript) (v : Verification),
        fourBytesAllowed.audit (fiveBytes.rig .simulated) {} {} = .ok f ∧
        f.calls.map (·.size) = [1, 2] ∧ f.Exact 5 2 ∧ f.result? = some v ∧
        v.failures = [.measuredAboveMax 5 4, .declaredAboveMax 5 4, .stepsBelowMin 2 3] ∧
        fourBytesAllowed.ReportsRates 5 2 v := by
  have hbytes : 5 * fourBytesAllowed.sampleBudget.toNat < 2 ^ 64 := by decide
  have hsteps : 2 * fourBytesAllowed.sampleBudget.toNat < 2 ^ 64 := by decide
  obtain ⟨f, haudit, hjudged⟩ :=
    (exact_calls_judged fourBytesAllowed hbytes hsteps).1 (fiveBytes.rig .simulated) {}
  have hvalues : ∀ f ∈ (fourBytesAllowed.audit (fiveBytes.rig .simulated) ({} : Transcript)
      {}).toOption,
      f.calls.map (·.size) = [1, 2] ∧ f.metadata.probeActive = true ∧ 1 ≤ f.metadata.samples ∧
        (∀ call ∈ f.calls, call.Exact 5 2) ∧
        f.result?.map (·.failures) =
          some [.measuredAboveMax 5 4, .declaredAboveMax 5 4, .stepsBelowMin 2 3] := by
    decide +kernel
  obtain ⟨hsizes, hactive, hsampled, hcalls, hfailures⟩ := hvalues f (by rw [haudit]; rfl)
  have hexact : f.Exact 5 2 := ⟨hactive, hsampled, hcalls⟩
  obtain ⟨v, hv, hreports⟩ := hjudged hexact
  rw [hv] at hfailures
  exact ⟨hbytes, hsteps, f, v, haudit, hsizes, hexact, hv, Option.some.inj hfailures, hreports⟩

end

end CostAudit
