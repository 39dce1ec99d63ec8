import CostAudit.Proofs.Config
import CostAudit.Proofs.Verdict

/-!
# Verdicts without samples

A run of a usable configuration can end without a sample in one way only.
Its budgets are positive, so at the first head of the loop no sample and no
byte is too many; but the clock is read there for the second time, and by
then the time budget can be used up (`Config.LateStart`). Such a run makes
no call and its verification, which has nothing to judge, passes
(`empty_of_lateStart`). Any other run makes a call, and completes only with
the sample of that call (`samples_pos_of_stopped`); its totals and its growth
are then what the checks have judged (`judged_of_not_lateStart`).

That the clock never runs back does not exclude a late start: a clock that
ticks whenever it is read uses up a budget of one tick
(`pass_without_samples`).
-/

namespace CostAudit

namespace Loop

section

variable {W σ α : Type} [Sink σ] [Scalar α] [Logarithm α] {rig : Rig W σ} {cfg : Settings α}
variable {sink : σ} {w : W}

omit [Logarithm α] in
/-- With some samples and some memory allowed, only the time can keep a run
from its first call. -/
theorem next_empty (hsamples : 0 < cfg.sampleBudget) (hmemory : 0 < cfg.memoryBudget)
    (elapsed : Duration) :
    cfg.next {} elapsed = if cfg.timeBudget ≤ elapsed then .ok (.stop .time) else .ok (.call 1) := by
  rw [Settings.next, if_neg (UInt64.not_le.mpr hsamples), if_neg (UInt64.not_le.mpr hmemory)]
  rfl

/-- A run whose time is used up at the first head of its loop. -/
theorem run_of_late (hlive : Sink.failed sink = false) (hsamples : 0 < cfg.sampleBudget)
    (hmemory : 0 < cfg.memoryBudget)
    (hlate : cfg.timeBudget ≤ headTime rig (startTime rig w) (startState rig sink w)) :
    run rig cfg sink w = .ok (.ofEnd rig cfg w
      (.stopped .time (headTime rig (startTime rig w) (startState rig sink w)))
      ((startState rig sink w).ticked rig)) := by
  have hstart : Sink.failed (startState rig sink w).sink = false := hlive
  have hnext : cfg.next (startState rig sink w).series
      (headTime rig (startTime rig w) (startState rig sink w)) = .ok (.stop .time) := by
    rw [show (startState rig sink w).series = {} from rfl, next_empty hsamples hmemory,
      if_pos hlate]
  rw [run_eq, iterate_eq, hstart, hnext]
  rfl

/-- A completed run that does not start late has a sample. -/
theorem samples_pos_of_stopped {r : Run W σ} {budget : Budget} {head : Duration}
    (hsamples : 0 < cfg.sampleBudget) (hmemory : 0 < cfg.memoryBudget)
    (hlate : ¬cfg.timeBudget ≤ headTime rig (startTime rig w) (startState rig sink w))
    (h : run rig cfg sink w = .ok r) (hending : r.ending = .stopped budget head) :
    0 < r.state.series.samples.size := by
  obtain ⟨s, hvisits, -, hnext, -, rfl⟩ := exists_visits_of_stopped h hending
  obtain rfl | hpos := samples_pos_of_visits hvisits
  · rw [show (startState rig sink w).series = {} from rfl, next_empty hsamples hmemory,
      if_neg hlate] at hnext
    cases hnext
  · exact hpos

end

/-- No reading of the clock is below an earlier one, whatever happens in
between. -/
structure Rig.NeverRunsBack (rig : Rig W σ) : Prop where
  now : ∀ w, (rig.now w).1 ≤ (rig.now (rig.now w).2).1
  active : ∀ w, (rig.now w).1 ≤ (rig.now (rig.active w).2).1
  read : ∀ mode w, (rig.now w).1 ≤ (rig.now (rig.read mode w).2).1
  call : ∀ it w, (rig.now w).1 ≤ (rig.now (rig.call it w).2).1

end Loop

open Loop (Rig Run Settings)

section

variable {W : Type} {c : Config} {rig : Rig W Transcript} {w : W}

/-- The time budget is used up between the reading of the clock at the start
of the run and the one at the first head of the loop. -/
def Config.LateStart {σ : Type} (c : Config) (rig : Rig W σ) (w : W) : Prop :=
  let start := rig.now (rig.active w).2
  let head := rig.now (rig.active start.2).2
  c.timeBudget ≤ head.1.satSub start.1

/-- The same of the states of the run. -/
theorem lateStart_iff (sink : Transcript) :
    c.LateStart rig w ↔ (Settings.ofConfig c).timeBudget ≤
      Loop.headTime rig (Loop.startTime rig (rig.active w).2)
        (Loop.startState rig sink (rig.active w).2) :=
  Iff.rfl

theorem warned_live (c : Config) (rig : Rig W Transcript) (w : W) :
    Sink.failed (c.warned rig {} w) = false := by
  have hfailures : (c.warned rig {} w).failures = #[] := failures_foldl_note _ _ _
  rw [Bool.eq_false_iff, ne_eq, Loop.failed_iff, hfailures]
  exact fun h => h rfl

/-- What an audit leaves behind that has nothing to judge. -/
structure Findings.Empty (f : Findings W Transcript) : Prop where
  outcome : f.report.outcome = .pass
  result : f.report.result = {}
  samples : f.report.metadata.samples = 0
  units : f.report.metadata.units = 0
  calls : f.calls = []

/-- A verdict on some samples, reached by the checks: they have judged the
totals and the growth of the run. -/
structure Findings.Judged (c : Config) (r : Run W Transcript) (f : Findings W Transcript) :
    Prop where
  samples : 1 ≤ f.report.metadata.samples
  units : 1 ≤ f.report.metadata.units
  /-- The samples and the units are those of the run. -/
  samples_eq : f.report.metadata.samples = r.state.series.samples.size
  units_eq : f.report.metadata.units = r.totals.units
  result : f.report.result = c.judge r.totals (r.state.series.grows c.growthScale)

theorem conclude_of_stopped {σ : Type} [Sink σ] {r : Run W σ} {budget : Budget}
    {head : Duration} (probeActive : Bool) (hending : r.ending = .stopped budget head) :
    (c.conclude probeActive r).result? = some (c.verify r.totals
        (r.state.series.grows c.growthScale)
        (Sink.note r.state.sink (Config.completedLine (c.completedMetadata r) budget))).1 ∧
      (c.conclude probeActive r).metadata = c.completedMetadata r ∧
      (c.conclude probeActive r).calls = r.calls := by
  rw [Config.conclude, hending]
  exact ⟨rfl, rfl, rfl⟩

theorem empty_conclude {r : Run W Transcript} {budget : Budget} {head : Duration}
    (probeActive : Bool) (hending : r.ending = .stopped budget head)
    (hseries : r.state.series = {}) (hpasses : r.state.passes = #[]) :
    (c.conclude probeActive r).Empty := by
  obtain ⟨hresult, hmetadata, hcalls⟩ := conclude_of_stopped (c := c) probeActive hending
  have hunits : r.totals.units = 0 := by rw [Run.totals, hseries]
  rw [Config.verify, if_pos hunits] at hresult
  refine ⟨?_, ?_, ?_, ?_, ?_⟩
  · rw [Findings.report, hresult]
    rfl
  · rw [Findings.report, hresult]
    rfl
  · rw [Findings.report, hmetadata, Config.completedMetadata, hseries]
    rfl
  · rw [Findings.report, hmetadata, Config.completedMetadata, hseries]
  · rw [hcalls, Run.calls, hpasses]
    rfl

theorem judged_conclude {r : Run W Transcript} {limit : UInt64} {budget : Budget}
    {head : Duration} (probeActive : Bool) (hending : r.ending = .stopped budget head)
    (hpos : 0 < r.state.series.samples.size) (hfits : r.state.series.Fits limit) :
    (c.conclude probeActive r).Judged c r := by
  obtain ⟨hresult, hmetadata, -⟩ := conclude_of_stopped (c := c) probeActive hending
  have hle : r.state.series.samples.size ≤ r.state.series.units.toNat := hfits.size_le_units
  have hunits : 1 ≤ r.state.series.units := by
    rw [UInt64.le_iff_toNat_le]
    exact Nat.le_trans hpos hle
  have hne : r.totals.units ≠ 0 :=
    UInt64.pos_iff_ne_zero.mp (UInt64.lt_of_lt_of_le (by decide) hunits)
  have hreport : (c.conclude probeActive r).report.metadata = c.completedMetadata r := hmetadata
  rw [Config.verify, if_neg hne] at hresult
  refine ⟨?_, ?_, ?_, ?_, ?_⟩
  · rw [hreport]
    exact hpos
  · rw [hreport]
    exact hunits
  · rw [hreport]
    rfl
  · rw [hreport]
    rfl
  · rw [Findings.report, hresult]
    rfl

theorem empty_of_lateStart {r : Run W Transcript} (husable : c.Usable) (hlate : c.LateStart rig w)
    (hrun : Loop.run rig (Settings.ofConfig c) (c.warned rig {} w) (rig.active w).2 = .ok r) :
    (c.conclude (rig.active w).1 r).Empty := by
  rw [Loop.run_of_late (warned_live c rig w) husable.samples husable.memory
    ((lateStart_iff _).mp hlate)] at hrun
  obtain rfl := Except.ok.inj hrun
  exact empty_conclude _ rfl rfl rfl

theorem judged_of_not_lateStart {r : Run W Transcript} (husable : c.Usable)
    (hlate : ¬c.LateStart rig w)
    (hrun : Loop.run rig (Settings.ofConfig c) (c.warned rig {} w) (rig.active w).2 = .ok r)
    (houtcome : (c.conclude (rig.active w).1 r).report.outcome ≠ .aborted) :
    (c.conclude (rig.active w).1 r).Judged c r := by
  cases hending : r.ending with
  | aborted =>
      have hwas : r.wasAborted = true := by rw [Run.wasAborted, hending]
      have hnone := (conclude_of_aborted (c := c) hwas (rig.active w).1).1
      exact absurd (report_of_none hnone).1 houtcome
  | stopped budget head =>
      have hpos := Loop.samples_pos_of_stopped husable.samples husable.memory
        (mt (lateStart_iff _).mpr hlate) hrun hending
      exact judged_conclude _ hending hpos (Loop.fits_of_run hrun)

end

/-- **Verdicts and their samples.** An audit of a usable configuration
concludes from a run. If it starts late, it passes without a call, a sample or
a judgement. Otherwise, unless it is aborted, it has retained a sample, and
its result is what the checks made of the totals and the growth of that run,
with some units of work among them. -/
theorem judged_unless_lateStart {W : Type} (c : Config) (rig : Rig W Transcript) (w : W)
    (hvalid : c.validate = .ok ()) :
    ∃ r f, Loop.run rig (Settings.ofConfig c) (c.warned rig {} w) (rig.active w).2 = .ok r ∧
      c.audit rig {} w = .ok f ∧ c.report rig w = .ok f.report ∧
      (¬c.LateStart rig w → f.report.outcome ≠ .aborted → f.Judged c r) ∧
      (c.LateStart rig w → f.Empty) := by
  have husable : c.Usable := Config.validate_eq_ok_iff.mp hvalid
  obtain ⟨r, hrun, haudit⟩ := exists_audit_eq_conclude c rig {} w hvalid
  refine ⟨r, _, hrun, haudit, ?_, ?_, ?_⟩
  · rw [Config.report, haudit]
    rfl
  · intro hlate houtcome
    exact judged_of_not_lateStart husable hlate hrun houtcome
  · intro hlate
    exact empty_of_lateStart husable hlate hrun

/-! ## A clock that ticks when it is read -/

/-- A world that is nothing but the reading of its clock, in nanoseconds. -/
def tickingRig : Rig Nat Transcript where
  now t := (.ofNanos t, t + 1)
  active t := (true, t)
  read _ t := (0, t)
  call _ t := ({}, t)

/-- The standard configuration with a time budget of some nanoseconds. -/
def nanosBudget (n : Nat) : Config := { Config.standard with timeBudget := .ofNanos n }

theorem validate_nanosBudget {n : Nat} (h : Duration.zero < .ofNanos n) :
    (nanosBudget n).validate = .ok () :=
  Config.validate_eq_ok_iff.mpr { Config.usable_standard with time := h }

theorem neverRunsBack_tickingRig : tickingRig.NeverRunsBack := by
  have hle (a b : Nat) (h : a ≤ b) : Duration.ofNanos a ≤ Duration.ofNanos b := by
    rw [Duration.le_iff, Duration.nanos_ofNanos, Duration.nanos_ofNanos]
    omega
  exact ⟨fun t => hle _ _ (Nat.le_succ t), fun t => hle _ _ (Nat.le_refl t),
    fun _ t => hle _ _ (Nat.le_refl t), fun _ t => hle _ _ (Nat.le_refl t)⟩

/-- With two nanoseconds to use, a call is made and judged. -/
theorem judged_of_two_nanos :
    (nanosBudget 2).validate = .ok () ∧ ¬(nanosBudget 2).LateStart tickingRig 0 ∧
      ∃ r f, Loop.run tickingRig (Settings.ofConfig (nanosBudget 2))
          ((nanosBudget 2).warned tickingRig {} 0) (tickingRig.active 0).2 = .ok r ∧
        (nanosBudget 2).audit tickingRig {} 0 = .ok f ∧ f.report.outcome = .pass ∧
        f.Judged (nanosBudget 2) r := by
  have hvalid : (nanosBudget 2).validate = .ok () := validate_nanosBudget (by decide)
  have hlate : ¬(nanosBudget 2).LateStart tickingRig 0 := by
    show ¬Duration.ofNanos 2 ≤ (Duration.ofNanos 1).satSub (.ofNanos 0)
    decide
  obtain ⟨r, f, hrun, haudit, hreport, hjudged, -⟩ :=
    judged_unless_lateStart (nanosBudget 2) tickingRig 0 hvalid
  have hvalues : ∀ r ∈ ((nanosBudget 2).report tickingRig 0).toOption, r.outcome = .pass := by
    decide +kernel
  have houtcome : f.report.outcome = .pass := hvalues _ (by rw [hreport]; rfl)
  exact ⟨hvalid, hlate, r, f, hrun, haudit, houtcome, hjudged hlate (by rw [houtcome]; decide)⟩

/-- A usable configuration and a clock that never runs back do not make sure
of a sample: with a budget of one tick the audit passes without any. -/
theorem pass_without_samples :
    (nanosBudget 1).validate = .ok () ∧ tickingRig.NeverRunsBack ∧
      ∃ r, (nanosBudget 1).report tickingRig 0 = .ok r ∧ r.outcome = .pass ∧
        r.metadata.samples = 0 ∧ r.metadata.units = 0 ∧ r.result = {} := by
  have hvalid : (nanosBudget 1).validate = .ok () := validate_nanosBudget (by decide)
  have hlate : (nanosBudget 1).LateStart tickingRig 0 := by
    show Duration.ofNanos 1 ≤ (Duration.ofNanos 1).satSub (.ofNanos 0)
    decide
  obtain ⟨r, hrun, haudit⟩ := exists_audit_eq_conclude (nanosBudget 1) tickingRig {} 0 hvalid
  have hempty := empty_of_lateStart (Config.validate_eq_ok_iff.mp hvalid) hlate hrun
  refine ⟨hvalid, neverRunsBack_tickingRig, _, ?_, hempty.outcome, hempty.samples, hempty.units,
    hempty.result⟩
  rw [Config.report, haudit]
  rfl

end CostAudit
