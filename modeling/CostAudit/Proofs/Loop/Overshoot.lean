import CostAudit.Proofs.Loop.Accounts
import CostAudit.Proofs.Scenario.Clock

/-!
# Overshoot by one call

No budget is looked at while a call is under way, so a run can end later and
with more memory than its budgets allow, but only by what its last call took.
For the first call of a pass this is the test at the head of the loop. The
repetition of a spike starts later, and what is tested before it is that the
first time fits once more: a time that is not zero then leaves some of the
budget, and after a time of zero the clock still stands where it stood at
the head of the loop (`started_lt_of_mem_pass`).
-/

namespace CostAudit.Loop

/-! ## The start of a call -/

section

variable {W σ α : Type} [Sink σ] [Scalar α] [Logarithm α] {rig : Rig W σ} {cfg : Settings α}
variable {origin : Duration} {probeActive : Bool} {size : UInt64} {s : State W σ} {t : Taken W σ}

omit [Scalar α] [Logarithm α] in
/-- Where a sample of some time fits once more, some time is left. -/
theorem lt_timeBudget_of_fits {now : Duration} {x : Sample} (hword : now.nanos < 2 ^ 64)
    (hpos : 0 < x.elapsed.nanos) (hfits : fits cfg origin now x = true) :
    now.satSub origin < cfg.timeBudget := by
  have hle : ((now.satSub origin).satAdd x.elapsed).nanos ≤ cfg.timeBudget.nanos :=
    of_decide_eq_true hfits
  have hmax : 2 ^ 64 ≤ Duration.maxNanos := by decide
  rw [Duration.nanos_satAdd, Duration.nanos_satSub] at hle
  rw [Duration.lt_iff, Duration.nanos_satSub]
  omega

omit [Scalar α] [Logarithm α] in
/-- The repetition of a spike starts within the time budget, if its pass
does. -/
theorem started_lt_of_fits (h : rig.MovesInCalls) {x : Sample} (n : UInt64)
    (hhead : (rig.now s.world).1.satSub origin < cfg.timeBudget)
    (hx : (attempt rig cfg probeActive size s).sample? = some x)
    (hfits : fits cfg origin (rig.now (attempt rig cfg probeActive size s).state.world).1 x =
      true) :
    (attempt rig cfg probeActive n
      ((afterFirst rig cfg probeActive size s).rollback s)).call.started.satSub origin
        < cfg.timeBudget := by
  rw [attempt_started h.still, now_rollback h.still, ← now_attempt h.still]
  by_cases hpos : 0 < x.elapsed.nanos
  · exact lt_timeBudget_of_fits (h.word _) hpos hfits
  · -- the clock has not moved since the head of the loop
    have hstill : (rig.now (attempt rig cfg probeActive size s).state.world).1.nanos ≤
        (rig.now s.world).1.nanos := by
      obtain rfl := attempt_sampleFrom hx
      have helapsed : (attempt rig cfg probeActive size s).call.ended.nanos -
          (attempt rig cfg probeActive size s).call.started.nanos ≤ 0 := Nat.not_lt.mp hpos
      rw [attempt_started h.still, ← now_attempt h.still] at helapsed
      omega
    rw [Duration.lt_iff, Duration.nanos_satSub] at hhead ⊢
    omega

/-- Every call of a pass starts within the time budget, if the pass does. -/
theorem PassEnds.started_lt (hends : PassEnds rig cfg origin probeActive size s t)
    (h : rig.MovesInCalls) (hhead : (rig.now s.world).1.satSub origin < cfg.timeBudget) {c : Call}
    (hc : c ∈ t.pass.calls) : c.started.satSub origin < cfg.timeBudget := by
  have hfirst : (attempt rig cfg probeActive size s).call.started.satSub origin <
      cfg.timeBudget := by
    rw [attempt_started h.still]
    exact hhead
  cases hends with
  | gaveUp => exact List.mem_singleton.mp hc ▸ hfirst
  | kept => exact List.mem_singleton.mp hc ▸ hfirst
  | noTime => exact List.mem_singleton.mp hc ▸ hfirst
  | repeated hx _ hfits =>
      rcases List.mem_cons.mp hc with rfl | hc
      · exact hfirst
      · exact List.mem_singleton.mp hc ▸ started_lt_of_fits h _ hhead hx hfits

end

/-! ## Whole runs -/

section

variable {W σ α : Type} [Sink σ] [Scalar α] [Logarithm α] {rig : Rig W σ} {cfg : Settings α}
variable {sink : σ} {w : W} {s : State W σ} {size : UInt64} {c : Call}

theorem MadeFrom.measured_lt (hmade : MadeFrom rig cfg sink w s size c) :
    s.series.measured < cfg.memoryBudget :=
  (affords_of_next_call hmade.starts.next).measured

theorem MadeFrom.started_lt (h : rig.MovesInCalls) (hmade : MadeFrom rig cfg sink w s size c) :
    c.started.satSub (startTime rig w) < cfg.timeBudget := by
  refine (passEnds_takePass ..).started_lt h ?_ hmade.mem
  rw [s.now_ticked h.still]
  exact Nat.not_le.mp (affords_of_next_call hmade.starts.next).time

/-- A series exceeds the memory budget by its last sample at most. -/
theorem measured_sub_last_lt (hvisits : Visits rig cfg sink w s) :
    ∀ x ∈ s.series.last?, satSub s.series.measured x.measured < cfg.memoryBudget := by
  refine hvisits.induction (motive := fun s =>
    ∀ x ∈ s.series.last?, satSub s.series.measured x.measured < cfg.memoryBudget) ?_ ?_
  · intro x hx
    cases hx
  · intro t u hturn _
    cases hturn with
    | @pass size y hstarts =>
        intro x hx
        obtain rfl : y = x := by
          simpa [Taken.settled, Series.last?, Series.append] using hx
        have hbefore := (affords_of_next_call hstarts.next).measured
        have hafter : (satSub (satAdd t.series.measured y.measured) y.measured).toNat ≤
            t.series.measured.toNat := by
          rw [toNat_satSub, toNat_satAdd]
          omega
        exact UInt64.lt_of_le_of_lt (UInt64.le_iff_toNat_le.mpr hafter) hbefore

theorem sum_elapsed_le_calls {xs : List Sample} {ps : List Pass}
    (h : List.Forall₂ (fun x p => x.elapsed ≤ p.last.elapsed) xs ps) :
    (xs.map (·.elapsed.nanos)).sum ≤ ((ps.flatMap Pass.calls).map (·.elapsed.nanos)).sum := by
  induction h with
  | nil => exact Nat.le_refl _
  | @cons x p xs ps hle _ ih =>
      rw [Duration.le_iff] at hle
      simp only [List.map_cons, List.sum_cons, List.flatMap_cons, List.map_append, List.sum_append,
        Pass.calls_eq p, List.map_nil, List.sum_nil]
      omega

/-- The retained times are within the time of the calls. -/
theorem sum_elapsed_le_of_run {r : Run W σ} (hr : run rig cfg sink w = .ok r) :
    (r.state.series.samples.toList.map (·.elapsed.nanos)).sum ≤
      (r.calls.map (·.elapsed.nanos)).sum := by
  obtain ⟨s, hvisits, hseries, discarded, hcalls⟩ := exists_visits_series_eq hr
  have hle : (s.series.samples.toList.map (·.elapsed.nanos)).sum ≤
      (s.calls.map (·.elapsed.nanos)).sum := sum_elapsed_le_calls
    (hvisits.forall₂ fun _ hsample => (passEnds_takePass ..).elapsed_le_last hsample)
  rw [hseries, ← hcalls, List.map_append, List.sum_append]
  omega

theorem origin_of_run {r : Run W σ} (hr : run rig cfg sink w = .ok r) :
    r.origin = startTime rig w := by
  obtain ⟨_, _, _, _, _, rfl⟩ := exists_visits_of_run hr
  rfl

/-- A run takes less than its last call longer than it may. -/
theorem elapsed_lt_of_run (h : rig.MovesInCalls) {r : Run W σ} (hr : run rig cfg sink w = .ok r)
    (hc : c ∈ r.calls.getLast?) : r.elapsed.nanos < cfg.timeBudget.nanos + c.elapsed.nanos := by
  obtain ⟨stop, hcalls, helapsed⟩ := backToBack_of_run h hr
  obtain ⟨s, size, hmade⟩ := exists_madeFrom_of_run hr (List.mem_of_getLast? hc)
  have hstarted : c.started.nanos - r.origin.nanos < cfg.timeBudget.nanos :=
    origin_of_run hr ▸ hmade.started_lt h
  obtain ⟨hafter, hle⟩ := hcalls.started_of_mem (List.mem_of_getLast? hc)
  rw [Duration.le_iff] at hafter hle
  rw [helapsed, Call.elapsed, Duration.nanos_satSub, Duration.nanos_satSub,
    ← hcalls.ended_getLast hc]
  omega

/-- A run takes at least as long as all the samples that it retains. -/
theorem sum_elapsed_le_elapsed (h : rig.MovesInCalls) {r : Run W σ}
    (hr : run rig cfg sink w = .ok r) :
    (r.state.series.samples.toList.map (·.elapsed.nanos)).sum ≤ r.elapsed.nanos := by
  obtain ⟨stop, hcalls, helapsed⟩ := backToBack_of_run h hr
  have hsum := hcalls.nanos_eq
  have hle := sum_elapsed_le_of_run hr
  rw [helapsed, Duration.nanos_satSub]
  omega

variable (rig cfg sink w) in
/-- **Overshoot.** Every call of a run starts while the time since the start
is within its budget, and so is the memory of the samples retained so far.
So a run goes over its time budget by less than its last call and over its
memory budget by its last sample at most; and no time is retained that has
not passed. -/
theorem overshoot_lt_last_call (h : rig.MovesInCalls) :
    (∀ s size c, MadeFrom rig cfg sink w s size c →
      c.started.satSub (startTime rig w) < cfg.timeBudget ∧
        s.series.measured < cfg.memoryBudget) ∧
    ∃ r, run rig cfg sink w = .ok r ∧
      (∀ c ∈ r.calls, ∃ s size, MadeFrom rig cfg sink w s size c) ∧
      (∀ c ∈ r.calls.getLast?, r.elapsed.nanos < cfg.timeBudget.nanos + c.elapsed.nanos) ∧
      (∀ x ∈ r.state.series.last?,
        satSub r.state.series.measured x.measured < cfg.memoryBudget) ∧
      (r.state.series.samples.toList.map (·.elapsed.nanos)).sum ≤ r.elapsed.nanos := by
  refine ⟨fun s size c hmade => ⟨hmade.started_lt h, hmade.measured_lt⟩, ?_⟩
  obtain ⟨r, hr⟩ := exists_run_eq_ok rig cfg sink w
  obtain ⟨s, hvisits, hseries, -⟩ := exists_visits_series_eq hr
  refine ⟨r, hr, fun c hc => exists_madeFrom_of_run hr hc, fun c hc => elapsed_lt_of_run h hr hc,
    ?_, sum_elapsed_le_elapsed h hr⟩
  rw [hseries]
  exact measured_sub_last_lt hvisits

end

/-! A run that goes over both budgets by the repetition of a spike, which
starts at 120 of 220 nanoseconds with 30 of 80 bytes used, and takes 200
nanoseconds and 100 bytes. -/

section

open Scenario

attribute [local instance] binaryLogarithm

/-- The third call and its repetition take long. -/
def slowScript : Script where
  otherwise := [.advance (.fixed 10), .allocate { linear := 10 }]
  byCall := [(2, [.advance (.fixed 100)]), (3, [.advance (.fixed 200), .allocate (.fixed 100)])]

def tightSettings : Settings Rat :=
  { spikeSettings with timeBudget := .ofNanos 220, memoryBudget := 80 }

theorem overshoot_of_slowScript :
    (slowScript.rig .simulated : Rig World Transcript).MovesInCalls ∧
      ∃ r : Run World Transcript,
        run (slowScript.rig .simulated) tightSettings {} {} = .ok r ∧
        r.calls.map (fun c => (c.size, c.started.nanos, c.elapsed.nanos)) =
          [(1, 0, 10), (2, 10, 10), (4, 20, 100), (4, 120, 200)] ∧
        r.elapsed.nanos = 320 ∧ r.elapsed.nanos < 220 + 200 ∧
        r.state.series.measured = 130 ∧ satSub r.state.series.measured 100 < 80 ∧
        (r.state.series.samples.toList.map (·.elapsed.nanos)).sum ≤ r.elapsed.nanos := by
  have hmoves : (slowScript.rig .simulated : Rig World Transcript).MovesInCalls :=
    Script.movesInCalls (by decide) .simulated
  obtain ⟨-, r, hr, -, htime, hmemory, hsum⟩ :=
    overshoot_lt_last_call (slowScript.rig .simulated) tightSettings ({} : Transcript) {} hmoves
  have hvalues : ∀ r ∈
      (run (slowScript.rig .simulated) tightSettings ({} : Transcript) {}).toOption,
      r.calls.map (fun c => (c.size, c.started.nanos, c.elapsed.nanos)) =
          [(1, 0, 10), (2, 10, 10), (4, 20, 100), (4, 120, 200)] ∧
        r.elapsed.nanos = 320 ∧ r.state.series.measured = 130 ∧
        r.calls.getLast?.map (·.elapsed.nanos) = some 200 ∧
        r.state.series.last?.map (·.measured) = some 100 := by decide +kernel
  obtain ⟨hcalls, helapsed, hmeasured, hlastCall, hlastSample⟩ := hvalues r (by rw [hr]; rfl)
  obtain ⟨c, hc, hnanos⟩ := Option.map_eq_some_iff.mp hlastCall
  obtain ⟨x, hx, hbytes⟩ := Option.map_eq_some_iff.mp hlastSample
  exact ⟨hmoves, r, hr, hcalls, helapsed, hnanos ▸ htime c hc, hmeasured, hbytes ▸ hmemory x hx,
    hsum⟩

end

end CostAudit.Loop
