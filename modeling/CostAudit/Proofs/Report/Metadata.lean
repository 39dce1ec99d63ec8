import CostAudit.Proofs.Vacuous
import CostAudit.Scenario.Script

/-!
# Metadata and the samples retained

The metadata of a report counts the samples that the run retained and adds up
their sizes. A run that a budget ended hands its whole series over, and both
numbers are read off it. A run that was stopped early hands over how many
samples it had and not their sizes, and the sum is left at zero
(`takesOver_conclude`). So the metadata describes the retained samples exactly
when the run was not stopped early or had retained none
(`metadata_describes_iff`). A configuration that is not usable is the second
case.
-/

namespace CostAudit

open Loop (Rig Run Settings)

/-- The metadata has the number of the samples of a series and the exact sum
of their sizes. -/
structure Metadata.Describes (m : Metadata) (s : Series) : Prop where
  samples : m.samples = s.samples.size
  units : m.units.toNat = (s.sizes.map UInt64.toNat).sum

/-- The samples that an audit retains: those of its run, and none of a
configuration that is not usable. -/
inductive Config.Retains {W σ : Type} [Sink σ] (c : Config) (rig : Rig W σ) (sink : σ) (w : W) :
    Series → Prop
  | rejected {e : Config.Invalid} (hvalid : c.validate = .error e) : Retains c rig sink w {}
  | taken {r : Run W σ} (hvalid : c.validate = .ok ())
      (hrun : Loop.run rig (Settings.ofConfig c) (c.warned rig sink w) (rig.active w).2 = .ok r) :
      Retains c rig sink w r.state.series

/-! ## Series that fit a budget -/

section

variable {limit : UInt64} {s : Series}

/-- The sum of the sizes of a series that has a sample is not zero. -/
theorem Series.Fits.units_eq_zero_iff (h : s.Fits limit) : s.units = 0 ↔ s.samples.size = 0 := by
  constructor
  · intro hunits
    rw [← Array.length_toList, h.samples_eq_nil hunits, List.length_nil]
  · intro hsize
    have hsum := h.units
    rw [Series.sizes, Array.eq_empty_of_size_eq_zero hsize] at hsum
    exact UInt64.toNat_inj.mp hsum

theorem Metadata.describes_of_units (m : Metadata) (h : s.Fits limit)
    (hsamples : m.samples = s.samples.size) (hunits : m.units = s.units) :
    m.Describes s ∧ m.samples ≤ m.units.toNat := by
  rw [hsamples, hunits]
  exact ⟨⟨hsamples, hunits ▸ h.units⟩, h.size_le_units⟩

/-- Metadata without units describes a series without samples only. -/
theorem Metadata.describes_iff_of_no_units (m : Metadata) (h : s.Fits limit)
    (hsamples : m.samples = s.samples.size) (hunits : m.units = 0) :
    (m.Describes s ↔ s.samples.size = 0) ∧ (m.samples ≤ m.units.toNat ↔ s.samples.size = 0) := by
  have hzero : (0 : UInt64).toNat = 0 := rfl
  refine ⟨?_, ?_⟩
  · rw [← h.units_eq_zero_iff, ← UInt64.toNat_inj, h.units]
    constructor
    · intro hdescribes
      rw [← hdescribes.units, hunits]
    · intro hsum
      exact ⟨hsamples, by rw [hunits, hsum]⟩
  · rw [hunits, hzero, Nat.le_zero, hsamples]

end

/-! ## One audit -/

section

variable {W σ : Type} [Sink σ]

/-- What the metadata takes over from a series that was verified, or not. -/
structure Findings.TakesOver (f : Findings W σ) (s : Series) : Prop where
  samples : f.metadata.samples = s.samples.size
  verified : f.result? ≠ none → f.metadata.units = s.units
  unverified : f.result? = none → f.metadata.units = 0

theorem takesOver_conclude (c : Config) (probeActive : Bool) (r : Run W σ) :
    (c.conclude probeActive r).TakesOver r.state.series := by
  cases hending : r.ending with
  | aborted =>
      rw [Config.conclude, hending]
      exact ⟨rfl, fun h => absurd rfl h, fun _ => rfl⟩
  | stopped budget head =>
      obtain ⟨hresult, hmetadata, -⟩ := conclude_of_stopped (c := c) probeActive hending
      refine ⟨?_, fun _ => ?_, fun h => ?_⟩
      · rw [hmetadata]
        rfl
      · rw [hmetadata]
        rfl
      · rw [hresult] at h
        cases h

theorem exists_audit_takesOver (c : Config) (rig : Rig W σ) (sink : σ) (w : W) :
    ∃ f s limit, c.audit rig sink w = .ok f ∧ c.Retains rig sink w s ∧ s.Fits limit ∧
      f.TakesOver s := by
  cases hvalid : c.validate with
  | error e =>
      refine ⟨_, {}, 0, by rw [Config.audit, hvalid], .rejected hvalid, Series.fits_empty 0, ?_⟩
      exact ⟨rfl, fun h => absurd rfl h, fun _ => rfl⟩
  | ok =>
      obtain ⟨r, hrun, haudit⟩ := exists_audit_eq_conclude c rig sink w hvalid
      exact ⟨_, _, _, haudit, .taken hvalid hrun, Loop.fits_of_run hrun,
        takesOver_conclude c _ r⟩

end

theorem Outcome.ofResult_eq_aborted_iff {v? : Option Verification} :
    Outcome.ofResult v? = .aborted ↔ v? = none := by
  cases v? with
  | none => exact iff_of_true rfl rfl
  | some v =>
      refine iff_of_false ?_ (Option.some_ne_none v)
      rw [ofResult]
      split <;> exact Outcome.noConfusion

/-- **Metadata and the samples retained.** The metadata of a report has the
number of the samples that the audit retained. It has the sum of their sizes,
and so at least as many units as samples, exactly when the audit was not
aborted or had retained no sample. Otherwise it has no units. -/
theorem metadata_describes_iff {W : Type} (c : Config) (rig : Rig W Transcript) (w : W) :
    ∃ f s, c.audit rig {} w = .ok f ∧ c.report rig w = .ok f.report ∧ c.Retains rig {} w s ∧
      f.report.metadata.samples = s.samples.size ∧
      (f.report.metadata.Describes s ↔
        f.report.outcome ≠ .aborted ∨ f.report.metadata.samples = 0) ∧
      (f.report.metadata.samples ≤ f.report.metadata.units.toNat ↔
        f.report.outcome ≠ .aborted ∨ f.report.metadata.samples = 0) ∧
      (f.report.outcome = .aborted → f.report.metadata.units = 0) := by
  obtain ⟨f, s, limit, haudit, hretains, hfits, htakes⟩ := exists_audit_takesOver c rig {} w
  have haborted : f.report.outcome = .aborted ↔ f.result? = none := Outcome.ofResult_eq_aborted_iff
  have hsamples : f.report.metadata.samples = s.samples.size := htakes.samples
  refine ⟨f, s, haudit, by rw [Config.report, haudit]; rfl, hretains, hsamples, ?_⟩
  by_cases hresult : f.result? = none
  · have hunits : f.report.metadata.units = 0 := htakes.unverified hresult
    obtain ⟨hdescribes, hle⟩ :=
      f.report.metadata.describes_iff_of_no_units hfits hsamples hunits
    have hcondition : (f.report.outcome ≠ .aborted ∨ f.report.metadata.samples = 0) ↔
        s.samples.size = 0 := by
      rw [hsamples]
      exact or_iff_right fun h => h (haborted.mpr hresult)
    rw [hcondition]
    exact ⟨hdescribes, hle, fun _ => hunits⟩
  · have hunits : f.report.metadata.units = s.units := htakes.verified hresult
    have hcondition : f.report.outcome ≠ .aborted := mt haborted.mp hresult
    obtain ⟨hdescribes, hle⟩ := f.report.metadata.describes_of_units hfits hsamples hunits
    exact ⟨iff_of_true hdescribes (Or.inl hcondition), iff_of_true hle (Or.inl hcondition),
      fun h => absurd h hcondition⟩

/-! ## A workload that gives up -/

/-- The workload gives up at size four. -/
def givesUpAtFour : Rig Scenario.World Transcript :=
  Scenario.Script.rig { bySize := [(4, [.fatal "cannot continue"])] } .simulated

/-- Two samples are retained, of sizes one and two. The report has two samples
and no units. -/
theorem no_units_of_two_samples :
    ∃ f s, Config.standard.audit givesUpAtFour {} {} = .ok f ∧
      Config.standard.Retains givesUpAtFour {} {} s ∧ s.sizes = [1, 2] ∧
      f.report.outcome = .aborted ∧ f.report.metadata.samples = 2 ∧
      f.report.metadata.units = 0 ∧ ¬f.report.metadata.Describes s := by
  have hvalid : Config.standard.validate = .ok () :=
    Config.validate_eq_ok_iff.mpr Config.usable_standard
  obtain ⟨r, hrun, haudit⟩ := exists_audit_eq_conclude Config.standard givesUpAtFour {} {} hvalid
  have hvalues : ∀ r ∈ (Loop.run givesUpAtFour (Settings.ofConfig .standard)
      (Config.standard.warned givesUpAtFour {} {}) (givesUpAtFour.active {}).2).toOption,
      r.state.series.sizes = [1, 2] ∧ r.wasAborted = true := by
    decide +kernel
  obtain ⟨hsizes, haborted⟩ := hvalues r (by rw [hrun]; rfl)
  have htakes := takesOver_conclude Config.standard (givesUpAtFour.active {}).1 r
  have hresult := (conclude_of_aborted (c := .standard) haborted (givesUpAtFour.active {}).1).1
  have hunits := htakes.unverified hresult
  have hsamples : r.state.series.samples.size = 2 := by
    rw [← Array.length_toList, ← List.length_map (f := Sample.size)]
    exact congrArg List.length hsizes
  refine ⟨_, _, haudit, .taken hvalid hrun, hsizes, Outcome.ofResult_eq_aborted_iff.mpr hresult,
    htakes.samples.trans hsamples, hunits, fun hdescribes => ?_⟩
  have hsum := hdescribes.units
  rw [hsizes] at hsum
  rw [Findings.report, hunits] at hsum
  cases hsum

end CostAudit
