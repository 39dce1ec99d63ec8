import CostAudit.Proofs.Loop.Sizes
import CostAudit.Scenario.Script

/-!
# The work of a run

The clock may stand still and the probe may read anything, so neither the
time nor the memory need ever end a run. The sample budget always does: each
sample adds its size to the units, and the units never exceed the budget.

A call that is thrown away adds nothing to the units, so the calls are
bounded apart from the samples. A pass makes two calls at most, both of one
size; the first pass has no earlier time to compare with and makes one
(`Bounded`). A pass that stops the run is bounded in the same way, because
the loop has made sure of room for it before it began.

All this is read off the record of a run. That the record leaves out no call
is what a meter in the world shows (`Rig.Meters`): whatever is counted there,
call by call, is the sum over the record.
-/

namespace CostAudit.Loop

/-- What some calls weigh when each weighs what its size does. -/
def weigh (weight : UInt64 → Nat) (cs : List Call) : Nat := (cs.map fun c => weight c.size).sum

theorem weigh_append (weight : UInt64 → Nat) (cs ds : List Call) :
    weigh weight (cs ++ ds) = weigh weight cs + weigh weight ds := by
  rw [weigh, List.map_append, List.sum_append, weigh, weigh]

/-- The units of work asked for by some calls. -/
def work (cs : List Call) : Nat := weigh UInt64.toNat cs

theorem Pass.length_calls_le (p : Pass) : p.calls.length ≤ 2 := by
  unfold calls
  cases p.followUp <;> simp

/-- Some passes and their calls are bounded by a number of units. -/
structure Bounded (ps : List Pass) (units : Nat) : Prop where
  passes : ps.length ≤ units
  first : ∀ p ∈ ps.head?, p.calls.length = 1
  work : work (ps.flatMap Pass.calls) ≤ 2 * units - 1

namespace Bounded

variable {ps : List Pass} {units : Nat}

theorem nil : Bounded [] units := by
  refine ⟨Nat.zero_le _, fun p hp => ?_, Nat.zero_le _⟩
  cases hp

theorem mono {more : Nat} (h : Bounded ps units) (hle : units ≤ more) : Bounded ps more :=
  ⟨Nat.le_trans h.passes hle, h.first, Nat.le_trans h.work (by omega)⟩

/-- One more pass of some size costs twice that size at most. The first one
costs its size, so that the whole stays below twice the units. -/
theorem snoc {p : Pass} {size : Nat} (h : Bounded ps units)
    (hfirst : ps = [] → p.calls.length = 1) (hwork : Loop.work p.calls = p.calls.length * size)
    (hsize : 1 ≤ size) : Bounded (ps ++ [p]) (units + size) := by
  have hsum : Loop.work ((ps ++ [p]).flatMap Pass.calls) =
      Loop.work (ps.flatMap Pass.calls) + p.calls.length * size := by
    rw [List.flatMap_append, Loop.work, weigh_append, List.flatMap_singleton, ← Loop.work,
      ← Loop.work, hwork]
  cases ps with
  | nil =>
      have hone := hfirst rfl
      refine ⟨?_, fun q hq => ?_, ?_⟩
      · rw [List.nil_append, List.length_singleton]
        omega
      · rw [← Option.some.inj hq]
        exact hone
      · have hzero : Loop.work (([] : List Pass).flatMap Pass.calls) = 0 := rfl
        rw [hsum, hone, hzero]
        omega
  | cons q qs =>
      have hpasses := h.passes
      have hbefore := h.work
      have htwo : p.calls.length * size ≤ 2 * size := Nat.mul_le_mul_right _ p.length_calls_le
      rw [List.length_cons] at hpasses
      refine ⟨?_, h.first, ?_⟩
      · rw [List.length_append, List.length_cons, List.length_singleton]
        omega
      · rw [hsum]
        omega

end Bounded

/-! ## One pass -/

section

variable {W σ α : Type} [Sink σ] [Scalar α] [Logarithm α] {rig : Rig W σ} {cfg : Settings α}
variable {origin : Duration} {probeActive : Bool} {size : UInt64} {s : State W σ} {t : Taken W σ}

/-- Without an earlier sample there is no spike to repeat. -/
theorem PassEnds.length_calls_first (h : PassEnds rig cfg origin probeActive size s t)
    (hlast : s.series.last? = none) : t.pass.calls.length = 1 := by
  cases h with
  | gaveUp => rfl
  | kept => rfl
  | noTime => rfl
  | repeated _ hspike =>
      rw [spike?, hlast] at hspike
      cases hspike

theorem PassEnds.work_calls (h : PassEnds rig cfg origin probeActive size s t) :
    work t.pass.calls = t.pass.calls.length * size.toNat := by
  have hsizes : ∀ c ∈ t.pass.calls, c.size.toNat = size.toNat := fun c hc =>
    congrArg UInt64.toNat (h.size_of_mem_calls hc)
  rw [work, weigh, List.map_congr_left hsizes, List.map_const', List.sum_replicate_nat]

end

/-! ## The bound at the heads of the loop -/

section

variable {W σ α : Type} [Sink σ] [Scalar α] [Logarithm α] {rig : Rig W σ} {cfg : Settings α}
variable {sink : σ} {w : W} {s : State W σ} {size : UInt64}

theorem length_passes_of_visits (h : Visits rig cfg sink w s) :
    s.passes.toList.length = s.series.samples.toList.length :=
  (h.forall₂ (motive := fun _ _ => True) fun _ _ => trivial).length_eq.symm

theorem last?_of_no_passes (h : Visits rig cfg sink w s) (hnil : s.passes.toList = []) :
    s.series.last? = none := by
  have hlength := length_passes_of_visits h
  rw [hnil, List.length_nil, Array.length_toList] at hlength
  rw [Series.last?, Array.back?_eq_none_iff]
  exact Array.eq_empty_of_size_eq_zero hlength.symm

/-- A pass that the loop begins keeps the bound, whether or not it yields a
sample. -/
theorem bounded_of_starts (h : Visits rig cfg sink w s)
    (hstarts : Starts rig cfg (startTime rig w) s size)
    (hbounded : Bounded s.passes.toList s.series.units.toNat) :
    Bounded (s.passes.push
        (passFrom rig cfg (startTime rig w) (startActive rig w) size s).pass).toList
      (s.series.units.toNat + size.toNat) := by
  have hends : PassEnds rig cfg (startTime rig w) (startActive rig w) size (s.ticked rig)
      (passFrom rig cfg (startTime rig w) (startActive rig w) size s) := passEnds_takePass ..
  have hpos := (units_lt_of_next_call hstarts.next).2
  have hlast : s.passes.toList = [] → (s.ticked rig).series.last? = none :=
    last?_of_no_passes h
  rw [Array.toList_push]
  exact hbounded.snoc (fun hnil => hends.length_calls_first (hlast hnil)) hends.work_calls
    (UInt64.le_iff_toNat_le.mp hpos)

theorem bounded_of_visits (h : Visits rig cfg sink w s) :
    Bounded s.passes.toList s.series.units.toNat := by
  induction h with
  | refl => exact .nil
  | @tail t u hvisits hturn ih =>
      cases hturn with
      | @pass size x hstarts hsample hadmits =>
          have hallows := allows_of_next_call (fits_of_visits hvisits) hstarts.next
          have hlt := cfg.sampleBudget.toNat_lt
          have hroom := hallows.within
          have hunits : (t.series.append x).units.toNat = t.series.units.toNat + size.toNat := by
            rw [Series.units_append, takePass_sample_size hsample, toNat_satAdd]
            omega
          have hbounded := bounded_of_starts hvisits hstarts ih
          rw [← hunits] at hbounded
          exact hbounded

/-- The passes of a run are bounded by its sample budget. -/
theorem bounded_of_run {r : Run W σ} (hr : run rig cfg sink w = .ok r) :
    Bounded r.state.passes.toList cfg.sampleBudget.toNat := by
  obtain ⟨s, ending, final, hvisits, hleaves, rfl⟩ := exists_visits_of_run hr
  have hheads := (bounded_of_visits hvisits).mono
    (UInt64.le_iff_toNat_le.mp (fits_of_visits hvisits).within)
  cases hleaves with
  | failed => exact hheads
  | stopped => exact hheads
  | gaveUp hstarts =>
      have hallows := allows_of_next_call (fits_of_visits hvisits) hstarts.next
      exact (bounded_of_starts hvisits hstarts (bounded_of_visits hvisits)).mono hallows.within

end

/-! ## Meters -/

/-- A count kept in the world of what the workload has been asked for: a call
adds the weight of its size, and nothing else moves the count. -/
structure Rig.Meters {W σ : Type} (rig : Rig W σ) (weight : UInt64 → Nat) (meter : W → Nat) :
    Prop where
  now : ∀ w, meter (rig.now w).2 = meter w
  active : ∀ w, meter (rig.active w).2 = meter w
  read : ∀ mode w, meter (rig.read mode w).2 = meter w
  call : ∀ it w, meter (rig.call it w).2 = meter w + weight it.size

section

variable {W σ α : Type} [Sink σ] {rig : Rig W σ} {weight : UInt64 → Nat} {meter : W → Nat}
variable (h : rig.Meters weight meter) (cfg : Settings α) (probeActive : Bool) (size : UInt64)
variable (s : State W σ)

include h

theorem meter_attempt :
    meter (attempt rig cfg probeActive size s).state.world =
      meter s.world + weigh weight [(attempt rig cfg probeActive size s).call] := by
  simp only [attempt, h.read, h.now, h.call, weigh, List.map_cons, List.map_nil, List.sum_cons,
    List.sum_nil, Nat.add_zero]

variable {cfg probeActive size s} [Scalar α] [Logarithm α] {origin : Duration} {t : Taken W σ}

theorem PassEnds.meter_eq (hends : PassEnds rig cfg origin probeActive size s t) :
    meter t.state.world = meter s.world + weigh weight t.pass.calls := by
  have hfirst := meter_attempt h cfg probeActive size s
  cases hends with
  | gaveUp => exact hfirst
  | kept => exact hfirst
  | noTime => exact (h.now _).trans hfirst
  | repeated =>
      simp only [repeatSpike, meter_attempt h, State.rollback, afterFirst, h.now, Pass.calls]
      rw [Nat.add_assoc, ← weigh_append]
      rfl

variable (cfg origin probeActive size s) in
theorem meter_passFrom :
    meter (passFrom rig cfg origin probeActive size s).state.world =
      meter s.world + weigh weight (passFrom rig cfg origin probeActive size s).pass.calls := by
  have hticked : meter (s.ticked rig).world = meter s.world := h.now _
  rw [← hticked]
  exact (passEnds_takePass ..).meter_eq h

variable {sink : σ} {w : W}

theorem meter_of_visits (hvisits : Visits rig cfg sink w s) :
    meter s.world = meter w + weigh weight s.calls := by
  refine hvisits.induction
    (motive := fun s => meter s.world = meter w + weigh weight s.calls) ?_ ?_
  · exact (h.active _).trans (h.now w)
  · intro t u hturn ih
    cases hturn with
    | pass =>
        rw [Taken.calls_settled, weigh_append, ← Nat.add_assoc, ← ih]
        exact meter_passFrom h ..

/-- What a meter shows after a run is the sum over the record of the run. -/
theorem meter_of_run {r : Run W σ} (hr : run rig cfg sink w = .ok r) :
    meter r.state.world = meter w + weigh weight r.calls := by
  obtain ⟨s, ending, final, hvisits, hleaves, rfl⟩ := exists_visits_of_run hr
  have hheads := meter_of_visits h hvisits
  have hticked : meter (final.ticked rig).world = meter final.world := h.now _
  refine hticked.trans ?_
  cases hleaves with
  | failed => exact hheads
  | stopped => exact (h.now _).trans hheads
  | @gaveUp size =>
      have hpass := meter_passFrom h cfg (startActive rig w) size s (startTime rig w)
      rw [hheads, Nat.add_assoc, ← weigh_append, ← s.calls_push] at hpass
      exact hpass

end

end CostAudit.Loop

namespace CostAudit.Scenario

/-! ### The calls that a scripted world counts -/

section

variable {σ : Type} [Sink σ]

theorem Directive.calls_perform (d : Directive) (it : Iteration σ) (w : World) :
    (d.perform it w).2.calls = w.calls := by
  cases d <;> rfl

theorem calls_play (ds : List Directive) (it : Iteration σ) (w : World) :
    (play it w ds).2.calls = w.calls := by
  induction ds generalizing it w with
  | nil => rfl
  | cons d ds ih =>
      have hfirst := d.calls_perform it w
      simp only [play]
      split
      · exact hfirst
      · exact (ih _ _).trans hfirst

theorem ProbeKind.calls_read (kind : ProbeKind) (mode : ProbeMode) (w : World) :
    (kind.probe.read mode w).2.calls = w.calls := by
  cases kind <;> cases mode <;> rfl

theorem Script.meters_calls (s : Script) (kind : ProbeKind) :
    (s.rig kind : Loop.Rig World σ).Meters (fun _ => 1) World.calls where
  now _ := rfl
  active _ := rfl
  read mode w := kind.calls_read mode w
  call it w := calls_play (s.directives w.calls it.size.toNat) it { w with calls := w.calls + 1 }

/-- The record of a run holds as many calls as its world has counted. -/
theorem Script.calls_of_run {α : Type} [Scalar α] [Logarithm α] {s : Script} {kind : ProbeKind}
    {cfg : Loop.Settings α} {sink : σ} {w : World} {r : Loop.Run World σ}
    (hr : Loop.run (s.rig kind) cfg sink w = .ok r) :
    r.state.world.calls = w.calls + r.calls.length := by
  have hmeter := Loop.meter_of_run (s.meters_calls kind) hr
  rwa [Loop.weigh, List.map_const', List.sum_replicate_nat, Nat.mul_one] at hmeter

end

end CostAudit.Scenario

namespace CostAudit.Loop

/-! ## Whole runs -/

section

variable {W σ α : Type} [Sink σ] [Scalar α] [Logarithm α]
variable (rig : Rig W σ) (cfg : Settings α) (sink : σ) (w : W)

/-- **The work of a run.** Every run ends, whatever its clock and its probe
read. It makes at most as many passes, and keeps at most as many samples, as
its sample budget has units. A pass makes one call or two and the first pass
one, and all calls together ask for less than twice the budget; none is made
when there is no budget. A meter in the world counts the same calls. -/
theorem work_lt_twice_sampleBudget :
    ∃ r, run rig cfg sink w = .ok r ∧
      r.state.passes.size ≤ cfg.sampleBudget.toNat ∧
      r.state.series.samples.size ≤ cfg.sampleBudget.toNat ∧
      (∀ p ∈ r.state.passes, 1 ≤ p.calls.length ∧ p.calls.length ≤ 2) ∧
      (∀ p ∈ r.state.passes[0]?, p.calls.length = 1) ∧
      work r.calls ≤ 2 * cfg.sampleBudget.toNat - 1 ∧
      (cfg.sampleBudget = 0 → r.calls = []) ∧
      ∀ weight meter, rig.Meters weight meter →
        meter r.state.world = meter w + weigh weight r.calls := by
  obtain ⟨r, hr⟩ := exists_run_eq_ok rig cfg sink w
  have hbounded := bounded_of_run hr
  have hfits := fits_of_run hr
  have hsamples := Nat.le_trans hfits.size_le_units (UInt64.le_iff_toNat_le.mp hfits.within)
  refine ⟨r, hr, hbounded.passes, hsamples, ?pass, ?first, hbounded.work, ?none, ?meter⟩
  case pass =>
    intro p _
    refine ⟨?_, p.length_calls_le⟩
    rw [Pass.calls_eq, List.length_append, List.length_singleton]
    omega
  case first =>
    intro p hp
    refine hbounded.first p ?_
    rw [List.head?_eq_getElem?, Array.getElem?_toList]
    exact hp
  case none =>
    intro hzero
    have hpasses := hbounded.passes
    rw [hzero] at hpasses
    rw [Run.calls, List.eq_nil_of_length_eq_zero (Nat.le_zero.mp hpasses), List.flatMap_nil]
  case meter => exact fun weight meter h => meter_of_run h hr

end

end CostAudit.Loop
