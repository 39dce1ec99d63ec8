import CostAudit.Proofs.Loop.Sizes
import CostAudit.Scalar

/-!
# The accounts of a run

A call that was thrown away must leave no trace in the totals, although it
may have grown the list of kept values, stopped a counter at its bound, or
been followed by a second spike. The only thing such a call passes on is
the room it made, so a kept call is recorded with the room it found
(`Retained`), and the totals are sums over these records.

`State.Balanced` is the invariant at every head of the loop. It speaks of
the record of the run alone, so it needs no reasoning about the order in
which the ledger, the list and the series were updated inside a pass: that
is all in `PassEnds.keeps`.
-/

namespace CostAudit.Loop

/-! ## Kept calls -/

/-- The bytes a call is taken to have used. -/
def Call.measured (probeActive : Bool) (c : Call) : UInt64 :=
  if probeActive then satSub c.after c.before else 0

/-- A call that was kept, and the room of the list when it was made. -/
structure Retained where
  room : Nat
  call : Call

/-- The growths of the list during the call. -/
def Retained.enlargements (k : Retained) : List Enlargement :=
  Retention.enlargements 0 k.room k.call.reply.kept.length

/-- The overhead of the call: the bytes of the values it kept and, for each
growth of the list, the whole new block. -/
def Retained.charge (k : Retained) : Nat :=
  Retention.bytes k.call.reply.kept +
    Retention.slotBytes * Retention.newPlaces k.enlargements

/-- The room of the list after the calls of some passes. -/
def roomAfter (room : Nat) (passes : List Pass) : Nat :=
  (passes.flatMap Pass.calls).foldl Call.roomAfter room

/-- The kept calls of some passes, given the room before the first. -/
def retained : Nat → List Pass → List Retained
  | _, [] => []
  | room, p :: ps =>
    ⟨p.discarded.foldl Call.roomAfter room, p.last⟩ :: retained (roomAfter room [p]) ps

theorem roomAfter_cons (room : Nat) (p : Pass) (ps : List Pass) :
    roomAfter room (p :: ps) = roomAfter (roomAfter room [p]) ps := by
  simp [roomAfter]

/-- A pass takes the room through its discarded calls and then its last. -/
theorem roomAfter_append_singleton (room : Nat) (ps : List Pass) (p : Pass) :
    roomAfter room (ps ++ [p]) =
      p.last.roomAfter (p.discarded.foldl Call.roomAfter (roomAfter room ps)) := by
  simp [roomAfter, Pass.calls_eq p]

theorem retained_append_singleton (room : Nat) (ps : List Pass) (p : Pass) :
    retained room (ps ++ [p]) =
      retained room ps ++ [⟨p.discarded.foldl Call.roomAfter (roomAfter room ps), p.last⟩] := by
  induction ps generalizing room with
  | nil => rfl
  | cons q qs ih =>
      rw [List.cons_append, retained, ih, ← roomAfter_cons]
      rfl

variable {W σ : Type}

/-- The kept calls of the passes so far. -/
def State.retained (s : State W σ) : List Retained := Loop.retained 0 s.passes.toList

/-! ## The balance -/

/-- The totals of a state cover exactly the kept calls. -/
structure State.Balanced (probeActive : Bool) (s : State W σ) : Prop where
  /-- There is a sample for each kept call. -/
  samples : s.series.samples.toList.map (fun x => (x.size, x.measured)) =
    s.retained.map fun k => (k.call.size, k.call.measured probeActive)
  /-- The samples divide the declared bytes among them without rest. -/
  declaredBytes :
    (s.series.samples.toList.map fun x => x.declaredBytes.toNat).sum = s.ledger.bytes.toNat
  declaredSteps :
    (s.series.samples.toList.map fun x => x.declaredSteps.toNat).sum = s.ledger.steps.toNat
  /-- The ledger holds what the kept calls declared, in order. -/
  ledger : s.ledger = ({} : Ledger).recordAll (s.retained.flatMap fun k => k.call.reply.actions)
  overhead :
    s.retention.overhead.toNat = min (s.retained.map Retained.charge).sum (2 ^ 64 - 1)
  measured :
    s.series.measured.toNat =
      min (s.series.samples.toList.map fun x => x.measured.toNat).sum (2 ^ 64 - 1)
  /-- No value is kept between calls. -/
  empty : s.retention.sizes = #[]
  /-- The list has the room that all calls made, kept or not. -/
  room : s.retention.capacity = roomAfter 0 s.passes.toList

theorem balanced_initial (probeActive : Bool) (sink : σ) (w : W) :
    (State.initial sink w : State W σ).Balanced probeActive :=
  ⟨rfl, rfl, rfl, rfl, rfl, rfl, rfl, rfl⟩

theorem Taken.retained_settled (t : Taken W σ) (s : State W σ) (x : Sample) :
    (t.settled s x).retained =
      s.retained ++
        [⟨t.pass.discarded.foldl Call.roomAfter (roomAfter 0 s.passes.toList), t.pass.last⟩] := by
  simp only [State.retained, settled, Array.toList_push, retained_append_singleton]

theorem Taken.samples_settled (t : Taken W σ) (s : State W σ) (x : Sample) :
    (t.settled s x).series.samples.toList = s.series.samples.toList ++ [x] := by
  simp only [settled, Series.append, Array.toList_push]

theorem Taken.sum_samples_settled (t : Taken W σ) (s : State W σ) (x : Sample)
    (f : Sample → Nat) :
    ((t.settled s x).series.samples.toList.map f).sum =
      (s.series.samples.toList.map f).sum + f x := by
  rw [t.samples_settled, List.map_append, List.sum_append]
  rfl

theorem Taken.sum_retained_settled (t : Taken W σ) (s : State W σ) (x : Sample)
    (f : Retained → Nat) :
    ((t.settled s x).retained.map f).sum = (s.retained.map f).sum +
      f ⟨t.pass.discarded.foldl Call.roomAfter (roomAfter 0 s.passes.toList), t.pass.last⟩ := by
  rw [t.retained_settled, List.map_append, List.sum_append]
  rfl

/-- The ledger never falls, so the differences in the sample are exact. -/
theorem Keeps.declared {probeActive : Bool} {s : State W σ} {t : Taken W σ} {x : Sample}
    (h : Keeps probeActive s t x) :
    s.ledger.bytes.toNat + x.declaredBytes.toNat = t.state.ledger.bytes.toNat ∧
      s.ledger.steps.toNat + x.declaredSteps.toNat = t.state.ledger.steps.toNat := by
  have hledger := s.ledger.le_recordAll t.pass.last.reply.actions
  rw [← h.ledger] at hledger
  have hbytes := UInt64.toNat_sub_of_le _ _ (UInt64.le_iff_toNat_le.mpr hledger.1)
  have hsteps := UInt64.toNat_sub_of_le _ _ (UInt64.le_iff_toNat_le.mpr hledger.2)
  rw [h.declaredBytes, h.declaredSteps, hbytes, hsteps]
  exact ⟨Nat.add_sub_cancel' hledger.1, Nat.add_sub_cancel' hledger.2⟩

theorem Keeps.overhead {probeActive : Bool} {s : State W σ} {t : Taken W σ} {x : Sample}
    (h : Keeps probeActive s t x) (hempty : s.retention.sizes = #[]) :
    t.state.retention.overhead.toNat =
      min (s.retention.overhead.toNat +
        Retained.charge ⟨t.pass.discarded.foldl Call.roomAfter s.retention.capacity, t.pass.last⟩)
        (2 ^ 64 - 1) := by
  have hlength : s.retention.sizes.size = 0 := by rw [hempty]; rfl
  have hkeep := Retention.overhead_keepAll t.pass.last.reply.kept
    { s.retention with capacity := t.pass.discarded.foldl Call.roomAfter s.retention.capacity }
  simp only [Retention.length, hlength] at hkeep
  rw [h.retention]
  exact hkeep

theorem Keeps.capacity {probeActive : Bool} {s : State W σ} {t : Taken W σ} {x : Sample}
    (h : Keeps probeActive s t x) (hempty : s.retention.sizes = #[]) :
    t.state.retention.capacity =
      t.pass.last.roomAfter (t.pass.discarded.foldl Call.roomAfter s.retention.capacity) := by
  have hlength : s.retention.sizes.size = 0 := by rw [hempty]; rfl
  have hkeep := Retention.capacity_keepAll t.pass.last.reply.kept
    { s.retention with capacity := t.pass.discarded.foldl Call.roomAfter s.retention.capacity }
  simp only [Retention.length, hlength] at hkeep
  rw [h.retention]
  exact hkeep

/-- A pass that keeps its sample keeps the balance. -/
theorem State.Balanced.settled {probeActive : Bool} {s : State W σ} {t : Taken W σ} {x : Sample}
    (hs : s.Balanced probeActive) (hkeeps : Keeps probeActive s t x) :
    (t.settled s x).Balanced probeActive := by
  refine ⟨?samples, ?bytes, ?steps, ?ledger, ?overhead, ?measured, ?empty, ?room⟩
  case samples =>
    rw [t.samples_settled, t.retained_settled, List.map_append, List.map_append, hs.samples]
    simp only [List.map_cons, List.map_nil, hkeeps.size, hkeeps.measured, Call.measured]
  case bytes => rw [t.sum_samples_settled, hs.declaredBytes, hkeeps.declared.1]; rfl
  case steps => rw [t.sum_samples_settled, hs.declaredSteps, hkeeps.declared.2]; rfl
  case ledger =>
    rw [t.retained_settled, List.flatMap_append, Ledger.recordAll_append, ← hs.ledger]
    exact hkeeps.ledger.trans (by simp)
  case overhead =>
    have hretention : (t.settled s x).retention = t.state.retention := rfl
    rw [t.sum_retained_settled, ← hs.room, hretention, hkeeps.overhead hs.empty, hs.overhead]
    omega
  case measured =>
    have hpush : (t.settled s x).series.measured = satAdd s.series.measured x.measured := rfl
    rw [t.sum_samples_settled, hpush, toNat_satAdd, hs.measured]
    omega
  case empty => exact congrArg Retention.sizes hkeeps.retention
  case room =>
    have hpasses : (t.settled s x).passes.toList = s.passes.toList ++ [t.pass] :=
      Array.toList_push
    rw [hpasses, roomAfter_append_singleton, ← hs.room]
    exact hkeeps.capacity hs.empty

/-! ## Whole runs -/

theorem State.Balanced.ticked {rig : Rig W σ} {probeActive : Bool} {s : State W σ}
    (h : s.Balanced probeActive) : (s.ticked rig).Balanced probeActive :=
  ⟨h.samples, h.declaredBytes, h.declaredSteps, h.ledger, h.overhead, h.measured, h.empty, h.room⟩

theorem netMeasured_of_balanced {r : Run W σ} (h : r.state.Balanced r.probeActive) :
    r.netMeasured.toNat =
      min (r.state.retained.map fun k => (k.call.measured r.probeActive).toNat).sum (2 ^ 64 - 1) -
        min (r.state.retained.map Retained.charge).sum (2 ^ 64 - 1) := by
  have hmeasured := congrArg (List.map fun p => p.2.toNat) h.samples
  simp only [List.map_map, Function.comp_def] at hmeasured
  rw [Run.netMeasured, toNat_satSub, h.measured, h.overhead, hmeasured]

section

variable {α : Type} [Sink σ] [Scalar α] [Logarithm α] {rig : Rig W σ} {cfg : Settings α}
variable {sink : σ} {w : W}

theorem balanced_of_visits {s : State W σ} (h : Visits rig cfg sink w s) :
    s.Balanced (startActive rig w) := by
  refine h.induction (motive := fun s => s.Balanced (startActive rig w))
    (balanced_initial _ sink _) ?_
  intro t u hturn hbalanced
  cases hturn with
  | pass hstarts hsample =>
      have hticked : (t.ticked rig).Balanced (startActive rig w) := hbalanced.ticked
      exact hticked.settled ((passEnds_takePass ..).keeps hticked.empty hsample)

theorem balanced_of_completed {r : Run W σ} (h : run rig cfg sink w = .ok r)
    (hcompleted : r.wasAborted = false) : r.state.Balanced r.probeActive := by
  obtain ⟨s, ending, final, hvisits, hleaves, rfl⟩ := exists_visits_of_run h
  cases hleaves with
  | failed => cases hcompleted
  | gaveUp => cases hcompleted
  | stopped => exact (balanced_of_visits hvisits).ticked.ticked

/-- **The accounts of a completed run.** Its totals are those of the kept
calls alone, whatever was discarded on the way, and the net measured bytes
are what these calls measured without what they were charged. -/
theorem accounts_of_completed {r : Run W σ} (h : run rig cfg sink w = .ok r)
    (hcompleted : r.wasAborted = false) :
    r.state.Balanced r.probeActive ∧
      r.netMeasured.toNat =
        min (r.state.retained.map fun k => (k.call.measured r.probeActive).toNat).sum (2 ^ 64 - 1) -
          min (r.state.retained.map Retained.charge).sum (2 ^ 64 - 1) :=
  have hbalanced := balanced_of_completed h hcompleted
  ⟨hbalanced, netMeasured_of_balanced hbalanced⟩

end

/-! A spike at the third size is repeated. Its first call declared bytes,
kept five values and made the list grow; none of it is in the totals. -/

section

/-- The logarithm to base two of a power of two. -/
local instance binaryLogarithm : Logarithm Rat := ⟨fun x => (Nat.log2 x.floor.toNat : Rat)⟩

def spikeSettings : Settings Rat where
  sampleBudget := 7
  memoryBudget := 1000000
  timeBudget := .ofNanos 1000000
  mode := .precise
  noiseScale := 2

def spikeTape : Tape where
  clock := [0, 0, 0, 10, 10, 10, 20, 20, 20, 120, 120, 120, 140, 140, 140]
  probe := [0, 100, 100, 200, 200, 600, 700, 900]
  replies :=
    [{ actions := [.declareBytes 3, .keep 0] },
      { actions := [.declareBytes 6] },
      { actions :=
          [.declareBytes 12, .declareSteps 1, .keep 8, .keep 8, .keep 8, .keep 8, .keep 8] },
      { actions := [.declareBytes 12, .keep 8, .keep 8, .keep 8, .keep 8, .keep 8] }]

theorem accounts_of_spike :
    ∃ r : Run Tape Transcript, run Tape.rig spikeSettings {} spikeTape = .ok r ∧
      r.wasAborted = false ∧ r.calls.map Call.size = [1, 2, 4, 4] ∧
      r.state.ledger.bytes = 21 ∧ r.state.retention.overhead = 104 ∧
      r.state.Balanced r.probeActive := by
  obtain ⟨r, hr⟩ := exists_run_eq_ok Tape.rig spikeSettings ({} : Transcript) spikeTape
  have hvalues : ∀ r ∈ (run Tape.rig spikeSettings ({} : Transcript) spikeTape).toOption,
      r.wasAborted = false ∧ r.calls.map Call.size = [1, 2, 4, 4] ∧ r.state.ledger.bytes = 21 ∧
        r.state.retention.overhead = 104 := by decide +kernel
  obtain ⟨hcompleted, hsizes, hbytes, hoverhead⟩ := hvalues r (by rw [hr]; rfl)
  exact ⟨r, hr, hcompleted, hsizes, hbytes, hoverhead, (accounts_of_completed hr hcompleted).1⟩

end

end CostAudit.Loop
