import CostAudit.Proofs.Binary64.Compare
import CostAudit.Proofs.Loop.Coupling
import CostAudit.Proofs.Loop.Stops
import CostAudit.Proofs.Verdict
import CostAudit.Proofs.Verification

/-!
# Audits with an inactive probe

What an inactive probe reads has no influence on an audit. A reading enters
a sample only as its measured bytes, which are zero when the probe is
inactive; from there the memory cap, the totals and the checks get nothing
to see. Two audits whose probes differ therefore leave the same findings
(`exists_audit_alike`).

That the measured bytes are zero also settles what an audit without an
active probe can say. Neither check on measured bytes is made, and the
memory budget never ends the run of a usable configuration: nothing of it is
used, and there is no rate to find it short by (`ending_ne_memory`).
-/

namespace CostAudit

open Loop (Rig Run Settings Call)

/-! ## Findings -/

section

variable {W W' σ : Type} {R : W → W' → Prop}

/-- Two audits that differ in the world and in the readings on record. -/
structure Findings.Alike (R : W → W' → Prop) (f : Findings W σ) (f' : Findings W' σ) : Prop where
  result : f.result? = f'.result?
  metadata : f.metadata = f'.metadata
  sink : f.sink = f'.sink
  world : R f.world f'.world
  calls : f.calls.map Call.withoutReadings = f'.calls.map Call.withoutReadings

theorem Findings.Alike.report_eq {f : Findings W Transcript} {f' : Findings W' Transcript}
    (h : f.Alike R f') : f.report = f'.report := by
  rw [report, report, h.result, h.metadata, h.sink]

variable [Sink σ] {c : Config}

theorem conclude_alike {r : Run W σ} {r' : Run W' σ} (h : r.Alike R r') (probeActive : Bool) :
    (c.conclude probeActive r).Alike R (c.conclude probeActive r') := by
  have hmetadata : c.completedMetadata r = c.completedMetadata r' := by
    simp only [Config.completedMetadata, h.state.series, h.elapsed, h.inactive.1, h.inactive.2,
      h.pinned]
  have htotals : r.totals = r'.totals := by
    simp only [Run.totals, Run.netMeasured, h.state.series, h.state.ledger, h.state.retention,
      h.inactive.1, h.inactive.2]
  unfold Config.conclude
  rw [h.ending]
  cases r'.ending with
  | aborted =>
      refine ⟨rfl, ?_, h.state.sink, h.state.world, h.calls_eq⟩
      simp only [h.state.series, h.elapsed]
  | stopped budget head =>
      simp only
      rw [hmetadata, htotals, h.state.series, h.state.sink]
      exact ⟨rfl, rfl, rfl, h.state.world, h.calls_eq⟩

/-- Two audits that differ in the readings of inactive probes leave the same
findings. -/
theorem exists_audit_alike {rig : Rig W σ} {rig' : Rig W' σ} (h : rig.Alike R rig') (c : Config)
    (sink : σ) {w : W} {w' : W'} (hw : R w w') :
    ∃ f f', c.audit rig sink w = .ok f ∧ c.audit rig' sink w' = .ok f' ∧ f.Alike R f' := by
  obtain ⟨hactive, hactive', hstart⟩ := h.active hw
  cases hvalid : c.validate with
  | error e =>
      simp only [Config.audit, hvalid]
      exact ⟨_, _, rfl, rfl, ⟨rfl, rfl, rfl, hw, rfl⟩⟩
  | ok =>
      have hwarned : c.warned rig' sink w' = c.warned rig sink w := by
        rw [Config.warned, Config.warned, hactive, hactive']
      obtain ⟨r, hr, haudit⟩ := exists_audit_eq_conclude c rig sink w hvalid
      obtain ⟨r', hr', haudit'⟩ := exists_audit_eq_conclude c rig' sink w' hvalid
      obtain ⟨q, hq, halike⟩ := Loop.exists_run_alike h hstart hr
      rw [hwarned] at hr'
      obtain rfl := Except.ok.inj (hr'.symm.trans hq)
      rw [hactive] at haudit
      rw [hactive'] at haudit'
      exact ⟨_, _, haudit, haudit', conclude_alike halike false⟩

end

/-! ## Nothing is measured -/

namespace Loop

section

variable {W σ α : Type} [Sink σ] [Scalar α] [Logarithm α] {rig : Rig W σ} {cfg : Settings α}
variable {sink : σ} {w : W} {s : State W σ}

theorem PassEnds.measured_eq_zero {origin : Duration} {size : UInt64} {t : Taken W σ}
    (h : PassEnds rig cfg origin false size s t) {x : Sample} (hx : t.sample? = some x) :
    x.measured = 0 := by
  cases h with
  | gaveUp => cases hx
  | kept hfirst =>
      cases hx
      rw [attempt_sampleFrom hfirst]
      rfl
  | noTime hfirst =>
      cases hx
      rw [attempt_sampleFrom hfirst]
      rfl
  | repeated =>
      simp only [repeatSpike, Option.map_eq_some_iff] at hx
      obtain ⟨z, hz, rfl⟩ := hx
      rw [settle_eq, attempt_sampleFrom hz]
      rfl

/-- With an inactive probe no bytes are measured. -/
theorem measured_eq_zero_of_visits (h : Visits rig cfg sink w s)
    (hactive : startActive rig w = false) :
    s.series.measured = 0 ∧ ∀ x ∈ s.series.samples, x.measured = 0 := by
  refine h.induction (motive := fun s =>
    s.series.measured = 0 ∧ ∀ x ∈ s.series.samples, x.measured = 0) ?_ ?_
  · exact ⟨rfl, fun x hx => absurd hx (Array.not_mem_empty x)⟩
  · intro t u hturn ih
    obtain ⟨htotal, hsamples⟩ := ih
    rw [hactive] at hturn
    cases hturn with
    | @pass size x _ hsample =>
        have hx : x.measured = 0 := (passEnds_takePass ..).measured_eq_zero hsample
        refine ⟨?_, fun y hy => ?_⟩
        · show satAdd t.series.measured x.measured = 0
          rw [htotal, hx]
          rfl
        · rcases Array.mem_push.mp hy with hy | rfl
          · exact hsamples y hy
          · exact hx

end

section

variable {W σ : Type} [Sink σ] {rig : Rig W σ} {cfg : Settings Float} {sink : σ} {w : W}

/-- Where nothing has been measured the memory budget does not end the run. -/
theorem next_ne_memory {s : Series} {elapsed : Duration} (hbudget : 0 < cfg.memoryBudget)
    (htotal : s.measured = 0) (hsamples : ∀ x ∈ s.samples, x.measured = 0) :
    cfg.next s elapsed ≠ .ok (.stop .memory) := by
  intro hnext
  obtain ⟨-, hspent | ⟨prev, hlast, -, cap, hcap, -⟩⟩ := binds_of_next_stop hnext
  · rw [htotal] at hspent
    exact UInt64.not_le.mpr hbudget hspent
  · have hprev := hsamples prev (Array.mem_of_back? hlast)
    have hrate : cfg.sizeForMemory? s prev = none := by
      simp only [Settings.sizeForMemory?, Sample.bytesPerUnit, hprev]
      exact if_neg (Bool.eq_false_iff.mp (Binary64.not_lt_zero_div _))
    rw [hrate] at hcap
    cases hcap

theorem ending_ne_memory (hbudget : 0 < cfg.memoryBudget) (hactive : startActive rig w = false)
    {r : Run W σ} (hr : run rig cfg sink w = .ok r) (head : Duration) :
    r.ending ≠ .stopped .memory head := by
  intro hending
  obtain ⟨s, hvisits, -, hnext, -⟩ := exists_visits_of_stopped hr hending
  obtain ⟨htotal, hsamples⟩ := measured_eq_zero_of_visits hvisits hactive
  exact next_ne_memory hbudget htotal hsamples hnext

end

end Loop

/-- The violation is of a check on measured bytes. -/
def Violation.needsReadings : Violation → Bool
  | measuredAboveMax .. => true
  | measuredAboveDeclared .. => true
  | _ => false

theorem needsReadings_eq_false {σ : Type} [Sink σ] {c : Config} {t : Totals} {growth : Bool}
    {sink : σ} (hactive : t.probeActive = false) :
    ∀ v ∈ (c.verify t growth sink).1.failures, v.needsReadings = false := by
  intro v hv
  obtain ⟨hunits, hv⟩ := mem_failures_verify.mp hv
  have hholds := ((judges_judge hunits).reported v).mp hv
  cases v with
  | measuredAboveMax =>
      obtain ⟨-, hprobe, -⟩ := hholds
      rw [hactive] at hprobe
      cases hprobe
  | measuredAboveDeclared =>
      obtain ⟨⟨-, hprobe, -⟩, -⟩ := hholds
      rw [hactive] at hprobe
      cases hprobe
  | _ => rfl

theorem needsReadings_conclude {W σ : Type} [Sink σ] {c : Config} {r : Run W σ}
    (hactive : r.probeActive = false) (probeActive : Bool) :
    ∀ v ∈ ((c.conclude probeActive r).result?.getD {}).failures, v.needsReadings = false := by
  have htotals : r.totals.probeActive = false := hactive
  unfold Config.conclude
  cases r.ending with
  | aborted => exact fun v hv => nomatch hv
  | stopped => exact needsReadings_eq_false htotals

/-! ## Whole audits -/

section

variable {W W' : Type} {R : W → W' → Prop} {rig : Rig W Transcript} {rig' : Rig W' Transcript}

/-- **Readings of an inactive probe.** Let two rigs with inactive probes be
alike whatever those read, and start in worlds that belong together. The
audits give one and the same report, call the workload in the same way, and
end in worlds that belong together. No check on measured bytes is in the
report; and when the configuration is usable, the run that it is about was
not stopped by the memory budget. -/
theorem inactive_readings_ignored (h : rig.Alike R rig') (c : Config) {w : W} {w' : W'}
    (hw : R w w') :
    ∃ f f', c.audit rig {} w = .ok f ∧ c.audit rig' {} w' = .ok f' ∧
      c.report rig w = .ok f.report ∧ c.report rig' w' = .ok f.report ∧
      f.calls.map Call.withoutReadings = f'.calls.map Call.withoutReadings ∧
      R f.world f'.world ∧
      (∀ v ∈ f.report.result.failures, v.needsReadings = false) ∧
      (c.validate = .ok () →
        ∃ r, Loop.run rig (.ofConfig c) (c.warned rig {} w) (rig.active w).2 = .ok r ∧
          f = c.conclude false r ∧ ∀ head, r.ending ≠ .stopped .memory head) := by
  obtain ⟨f, f', hf, hf', halike⟩ := exists_audit_alike h c {} hw
  have hreport : c.report rig w = .ok f.report := by
    rw [Config.report, hf]
    rfl
  have hreport' : c.report rig' w' = .ok f.report := by
    rw [Config.report, hf', halike.report_eq]
    rfl
  refine ⟨f, f', hf, hf', hreport, hreport', halike.calls, halike.world, ?_⟩
  cases hvalid : c.validate with
  | error e =>
      rw [Config.audit, hvalid] at hf
      cases hf
      refine ⟨?_, ?_⟩
      · intro v hv
        exact absurd hv List.not_mem_nil
      · intro hok
        cases hok
  | ok =>
      obtain ⟨hactive, -, hstart⟩ := h.active hw
      obtain ⟨r, hr, haudit⟩ := exists_audit_eq_conclude c rig ({} : Transcript) w hvalid
      obtain ⟨r', -, hrun⟩ := Loop.exists_run_alike h hstart hr
      rw [hf, hactive] at haudit
      obtain rfl := Except.ok.inj haudit
      have hbudget := (Config.validate_eq_ok_iff.mp hvalid).memory
      exact ⟨needsReadings_conclude hrun.inactive.1 false, fun _ => ⟨r, hr, rfl,
        Loop.ending_ne_memory hbudget (Loop.startActive_eq_false h hstart).1 hr⟩⟩

end

/-! One routine audited with a probe that reads zero and with one that jumps
by a thousand bytes at each reading. Were it active, the second would find
hundreds of bytes per unit where one is allowed. -/

section

open Loop

/-- A clock and a workload that takes ten nanoseconds and declares one byte
for each unit. -/
def tenNanosRig {P : Type} (read : ProbeMode → Nat × P → UInt64 × P) : Rig (Nat × P) Transcript :=
  .ofParts (fun n => (.ofNanos n, n))
    (fun it n => ({ actions := [.declareBytes it.size] }, n + 10 * it.size.toNat)) read

def quietRig : Rig (Nat × Unit) Transcript := tenNanosRig fun _ _ => (0, ())

def jumpyRig : Rig (Nat × UInt64) Transcript := tenNanosRig fun _ x => (x.2, x.2 + 1000)

def oneByteAllowed : Config :=
  { Config.standard with required := .ofList [.memSafe], maxMeanBytes := some 1, sampleBudget := 3 }

theorem inactive_readings_of_jumpyRig :
    ∃ f f', oneByteAllowed.audit quietRig {} (0, ()) = .ok f ∧
      oneByteAllowed.audit jumpyRig {} (0, 0) = .ok f' ∧
      f.calls.map Call.before = [0, 0] ∧ f'.calls.map Call.before = [0, 2000] ∧
      oneByteAllowed.report quietRig (0, ()) = .ok f.report ∧
      oneByteAllowed.report jumpyRig (0, 0) = .ok f.report ∧
      f.calls.map Call.withoutReadings = f'.calls.map Call.withoutReadings ∧
      f.world.1 = f'.world.1 ∧ (∀ v ∈ f.report.result.failures, v.needsReadings = false) ∧
      ∃ r, run quietRig (.ofConfig oneByteAllowed) (oneByteAllowed.warned quietRig {} (0, ()))
          (quietRig.active (0, ())).2 = .ok r ∧
        f = oneByteAllowed.conclude false r ∧ ∀ head, r.ending ≠ .stopped .memory head := by
  have halike : quietRig.Alike (fun x x' => x.1 = x'.1) jumpyRig := by
    unfold quietRig jumpyRig
    exact Rig.alike_ofParts ..
  have hvalid : oneByteAllowed.validate = .ok () :=
    Config.validate_eq_ok_iff.mpr { Config.usable_standard with samples := by decide }
  have hworlds : ((0 : Nat), ()).1 = ((0 : Nat), (0 : UInt64)).1 := rfl
  obtain ⟨f, f', hf, hf', hreport, hreport', hcalls, hworld, hchecks, hmemory⟩ :=
    inactive_readings_ignored halike oneByteAllowed hworlds
  have hquiet : ∀ f ∈ (oneByteAllowed.audit quietRig {} (0, ())).toOption,
      f.calls.map Call.before = [0, 0] := by decide +kernel
  have hjumpy : ∀ f ∈ (oneByteAllowed.audit jumpyRig {} (0, 0)).toOption,
      f.calls.map Call.before = [0, 2000] := by decide +kernel
  exact ⟨f, f', hf, hf', hquiet f (by rw [hf]; rfl), hjumpy f' (by rw [hf']; rfl), hreport,
    hreport', hcalls, hworld, hchecks, hmemory hvalid⟩

end

end CostAudit
