import CostAudit.Proofs.Loop.Sizes

/-!
# Runs that differ in their readings

Two rigs are alike when their probes are inactive and, whatever those read,
the clocks agree and the workloads reply the same (`Rig.Alike`). The worlds
of the two may be of different kinds; a relation says which of them belong
together.

Two runs over such rigs go through the same states but for the world and the
readings on record (`State.Alike`). Each step of one is answered by the same
step of the other: a call, a pass, a turn of the loop and an end of it. So
whatever one run does, the other does too (`exists_run_alike`).
-/

namespace CostAudit.Loop

/-! ## Records without readings -/

/-- The record of a call but for what the probe read. -/
def Call.withoutReadings (c : Call) : Call := { c with before := 0, after := 0 }

def FollowUp.withoutReadings : FollowUp → FollowUp
  | .none => .none
  | .noTime line => .noTime line
  | .repeated call => .repeated call.withoutReadings

def Pass.withoutReadings (p : Pass) : Pass :=
  ⟨p.first.withoutReadings, p.followUp.withoutReadings⟩

theorem Pass.calls_withoutReadings (p : Pass) :
    p.withoutReadings.calls = p.calls.map Call.withoutReadings := by
  rcases p with ⟨first, followUp⟩
  cases followUp <;> rfl

/-! ## What is alike -/

section

variable {W W' σ : Type}

/-- Two rigs with inactive probes that are alike but for their readings. -/
structure Rig.Alike (R : W → W' → Prop) (rig : Rig W σ) (rig' : Rig W' σ) : Prop where
  now {w : W} {w' : W'} (h : R w w') :
    (rig.now w).1 = (rig'.now w').1 ∧ R (rig.now w).2 (rig'.now w').2
  active {w : W} {w' : W'} (h : R w w') :
    (rig.active w).1 = false ∧ (rig'.active w').1 = false ∧
      R (rig.active w).2 (rig'.active w').2
  /-- The readings themselves may be anything. -/
  read (mode : ProbeMode) {w : W} {w' : W'} (h : R w w') :
    R (rig.read mode w).2 (rig'.read mode w').2
  call (it : Iteration σ) {w : W} {w' : W'} (h : R w w') :
    (rig.call it w).1 = (rig'.call it w').1 ∧ R (rig.call it w).2 (rig'.call it w').2
  canPin : rig.canPin = rig'.canPin

/-- Two states that differ in the world and in the readings on record. -/
structure State.Alike (R : W → W' → Prop) (s : State W σ) (s' : State W' σ) : Prop where
  series : s.series = s'.series
  ledger : s.ledger = s'.ledger
  retention : s.retention = s'.retention
  sink : s.sink = s'.sink
  world : R s.world s'.world
  passes : s.passes.map Pass.withoutReadings = s'.passes.map Pass.withoutReadings

structure Attempt.Alike (R : W → W' → Prop) (a : Attempt W σ) (a' : Attempt W' σ) : Prop where
  call : a.call.withoutReadings = a'.call.withoutReadings
  sample : a.sample? = a'.sample?
  state : a.state.Alike R a'.state

structure Taken.Alike (R : W → W' → Prop) (t : Taken W σ) (t' : Taken W' σ) : Prop where
  pass : t.pass.withoutReadings = t'.pass.withoutReadings
  sample : t.sample? = t'.sample?
  state : t.state.Alike R t'.state

/-- Two records of runs that differ in the world and in the readings. -/
structure Run.Alike (R : W → W' → Prop) (r : Run W σ) (r' : Run W' σ) : Prop where
  ending : r.ending = r'.ending
  origin : r.origin = r'.origin
  elapsed : r.elapsed = r'.elapsed
  inactive : r.probeActive = false ∧ r'.probeActive = false
  pinned : r.pinned = r'.pinned
  state : r.state.Alike R r'.state

end

/-- A clock and a workload in one world, and an inactive probe that has a
world of its own and may look at the other. -/
def Rig.ofParts {E P σ : Type} (now : E → Duration × E) (call : Iteration σ → E → Reply × E)
    (read : ProbeMode → E × P → UInt64 × P) : Rig (E × P) σ where
  now x := ((now x.1).1, (now x.1).2, x.2)
  active x := (false, x)
  read mode x := ((read mode x).1, x.1, (read mode x).2)
  call it x := ((call it x.1).1, (call it x.1).2, x.2)

/-- Any two inactive probes will do. -/
theorem Rig.alike_ofParts {E P P' σ : Type} (now : E → Duration × E)
    (call : Iteration σ → E → Reply × E) (read : ProbeMode → E × P → UInt64 × P)
    (read' : ProbeMode → E × P' → UInt64 × P') :
    (ofParts now call read).Alike (fun x x' => x.1 = x'.1) (ofParts now call read') where
  now := by
    rintro ⟨e, p⟩ ⟨_, p'⟩ rfl
    exact ⟨rfl, rfl⟩
  active h := ⟨rfl, rfl, h⟩
  read _ _ _ h := h
  call := by
    rintro it ⟨e, p⟩ ⟨_, p'⟩ rfl
    exact ⟨rfl, rfl⟩
  canPin := rfl

/-! ## One call -/

section

variable {W W' σ α : Type} [Sink σ] {R : W → W' → Prop} {rig : Rig W σ} {rig' : Rig W' σ}
variable {s : State W σ} {s' : State W' σ} {cfg : Settings α}

theorem attempt_alike (h : rig.Alike R rig') (hs : s.Alike R s') (size : UInt64) :
    (attempt rig cfg false size s).Alike R (attempt rig' cfg false size s') := by
  rcases s with ⟨series, ledger, retention, sink, w, passes⟩
  rcases s' with ⟨series', ledger', retention', sink', w', passes'⟩
  obtain ⟨rfl, rfl, rfl, rfl, hworld, hpasses⟩ := hs
  simp only at hworld hpasses
  have hbefore := h.read cfg.mode hworld
  obtain ⟨hstarted, hbegun⟩ := h.now hbefore
  obtain ⟨hreply, hcalled⟩ := h.call ⟨size, ledger, retention, sink⟩ hbegun
  obtain ⟨hended, hdone⟩ := h.now hcalled
  have hafter := h.read cfg.mode hdone
  refine ⟨?_, ?_, ?_⟩
  · simp only [attempt, Call.withoutReadings, hstarted, hreply, hended]
  · simp only [attempt, Call.sample, hstarted, hreply, hended]
    rfl
  · refine ⟨rfl, ?_, ?_, ?_, hafter, hpasses⟩ <;> simp only [attempt, hreply]

/-! ## One pass -/

omit [Sink σ] in
theorem State.Alike.move (hs : s.Alike R s') {w : W} {w' : W'} (hw : R w w') :
    ({ s with world := w } : State W σ).Alike R { s' with world := w' } :=
  ⟨hs.series, hs.ledger, hs.retention, hs.sink, hw, hs.passes⟩

theorem State.Alike.note (hs : s.Alike R s') (line : String) :
    ({ s with sink := Sink.note s.sink line } : State W σ).Alike R
      { s' with sink := Sink.note s'.sink line } :=
  ⟨hs.series, hs.ledger, hs.retention, congrArg (Sink.note · line) hs.sink, hs.world, hs.passes⟩

omit [Sink σ] in
theorem State.Alike.rollback (hs : s.Alike R s') {e : State W σ} {e' : State W' σ}
    (he : e.Alike R e') : (s.rollback e).Alike R (s'.rollback e') := by
  refine ⟨hs.series, he.ledger, ?_, hs.sink, hs.world, hs.passes⟩
  show s.retention.rollback e.retention.mark = s'.retention.rollback e'.retention.mark
  rw [hs.retention, he.retention]

variable [Scalar α]

theorem repeatSpike_alike (h : rig.Alike R rig') {e : State W σ} {e' : State W' σ}
    (hs : s.Alike R s') (he : e.Alike R e') {first first' : Call}
    (hfirst : first.withoutReadings = first'.withoutReadings) (limit : α) (x : Sample) :
    (repeatSpike rig cfg false limit first x e s).Alike R
      (repeatSpike rig' cfg false limit first' x e' s') := by
  have hsecond : (attempt rig cfg false x.size (s.rollback e)).Alike R
      (attempt rig' cfg false x.size (s'.rollback e')) := attempt_alike h (hs.rollback he) x.size
  refine ⟨?_, ?_, hsecond.state⟩
  · simp only [repeatSpike, Pass.withoutReadings, FollowUp.withoutReadings, hfirst, hsecond.call]
  · simp only [repeatSpike, hsecond.sample]

variable [Logarithm α]

theorem takePass_alike (h : rig.Alike R rig') (hs : s.Alike R s') (origin : Duration)
    (size : UInt64) :
    (takePass rig cfg origin false size s).Alike R (takePass rig' cfg origin false size s') := by
  have hfirst : (attempt rig cfg false size s).Alike R (attempt rig' cfg false size s') :=
    attempt_alike h hs size
  have hpass (followUp : FollowUp) (hkind : followUp.withoutReadings = followUp) :
      Pass.withoutReadings ⟨(attempt rig cfg false size s).call, followUp⟩ =
        Pass.withoutReadings ⟨(attempt rig' cfg false size s').call, followUp⟩ := by
    simp only [Pass.withoutReadings, hfirst.call]
  obtain ⟨hnow, hread⟩ := h.now hfirst.state.world
  simp only [takePass]
  rw [← hfirst.sample, ← hs.series, ← hnow]
  cases (attempt rig cfg false size s).sample? with
  | none => exact ⟨hpass .none rfl, rfl, hfirst.state⟩
  | some x =>
      simp only
      cases spike? cfg s.series x with
      | none => exact ⟨hpass .none rfl, rfl, hfirst.state⟩
      | some limit =>
          simp only
          split
          · exact repeatSpike_alike h (hfirst.state.move hread) hs hfirst.call limit x
          · exact ⟨hpass (.noTime _) rfl, rfl, (hfirst.state.move hread).note _⟩

/-! ## The loop -/

omit [Scalar α] [Logarithm α] [Sink σ] in
theorem State.Alike.ticked (h : rig.Alike R rig') (hs : s.Alike R s') :
    (s.ticked rig).Alike R (s'.ticked rig') := hs.move (h.now hs.world).2

omit [Scalar α] [Logarithm α] [Sink σ] in
theorem headTime_alike (h : rig.Alike R rig') (hs : s.Alike R s') (origin : Duration) :
    headTime rig origin s = headTime rig' origin s' :=
  congrArg (Duration.satSub · origin) (h.now hs.world).1

variable (cfg) in
theorem passFrom_alike (h : rig.Alike R rig') (hs : s.Alike R s') (origin : Duration)
    (size : UInt64) :
    (passFrom rig cfg origin false size s).Alike R (passFrom rig' cfg origin false size s') :=
  takePass_alike h (hs.ticked h) origin size

variable {origin : Duration}

omit [Logarithm α] in
theorem Starts.alike {size : UInt64} (hstarts : Starts rig cfg origin s size)
    (h : rig.Alike R rig') (hs : s.Alike R s') : Starts rig' cfg origin s' size := by
  refine ⟨?_, ?_⟩
  · rw [← hs.sink]
    exact hstarts.live
  · rw [← hs.series, ← headTime_alike h hs]
    exact hstarts.next

omit [Scalar α] [Logarithm α] [Sink σ] in
/-- Records that are alike stay so when a pass is added to each. -/
theorem passes_push {t : Taken W σ} {t' : Taken W' σ} (ht : t.Alike R t') (hs : s.Alike R s') :
    (s.passes.push t.pass).map Pass.withoutReadings =
      (s'.passes.push t'.pass).map Pass.withoutReadings := by
  rw [Array.map_push, Array.map_push, hs.passes, ht.pass]

/-- A turn of one loop is answered by a turn of the other. -/
theorem Turn.exists_alike {t : State W σ} (hturn : Turn rig cfg origin false s t)
    (h : rig.Alike R rig') (hs : s.Alike R s') :
    ∃ t', Turn rig' cfg origin false s' t' ∧ t.Alike R t' := by
  cases hturn with
  | @pass size x hstarts hsample hadmits =>
      have htaken := passFrom_alike cfg h hs origin size
      rw [htaken.sample] at hsample
      rw [hs.series] at hadmits
      refine ⟨_, .pass (hstarts.alike h hs) hsample hadmits, ?_⟩
      refine ⟨?_, htaken.state.ledger, htaken.state.retention, htaken.state.sink,
        htaken.state.world, passes_push htaken hs⟩
      exact congrArg (Series.append · x) hs.series

/-- So is an end of the loop. -/
theorem Leaves.exists_alike {ending : Ending} {final : State W σ}
    (hleaves : Leaves rig cfg origin false s (.ok (ending, final)))
    (h : rig.Alike R rig') (hs : s.Alike R s') :
    ∃ final', Leaves rig' cfg origin false s' (.ok (ending, final')) ∧ final.Alike R final' := by
  have htime := headTime_alike h hs origin
  cases hleaves with
  | failed hfailed =>
      rw [hs.sink] at hfailed
      exact ⟨s', .failed hfailed, hs⟩
  | stopped hlive hnext =>
      rw [hs.sink] at hlive
      rw [hs.series, htime] at hnext
      rw [htime]
      exact ⟨s'.ticked rig', .stopped hlive hnext, hs.ticked h⟩
  | @gaveUp size hstarts hsample =>
      have htaken := passFrom_alike cfg h hs origin size
      rw [htaken.sample] at hsample
      refine ⟨_, .gaveUp (hstarts.alike h hs) hsample, ?_⟩
      exact ⟨htaken.state.series, htaken.state.ledger, htaken.state.retention,
        htaken.state.sink, htaken.state.world, passes_push htaken hs⟩

end

/-! ## Whole runs -/

section

variable {W W' σ α : Type} [Sink σ] [Scalar α] [Logarithm α] {R : W → W' → Prop}
variable {rig : Rig W σ} {rig' : Rig W' σ} {cfg : Settings α} {sink : σ} {w : W} {w' : W'}

omit [Sink σ] [Scalar α] [Logarithm α] in
theorem startActive_eq_false (h : rig.Alike R rig') (hw : R w w') :
    startActive rig w = false ∧ startActive rig' w' = false := by
  obtain ⟨hleft, hright, -⟩ := h.active (h.now hw).2
  exact ⟨hleft, hright⟩

omit [Sink σ] [Scalar α] [Logarithm α] in
theorem startState_alike (h : rig.Alike R rig') (hw : R w w') :
    (startState rig sink w).Alike R (startState rig' sink w') :=
  ⟨rfl, rfl, rfl, rfl, (h.active (h.now hw).2).2.2, rfl⟩

/-- Every state that one run visits is alike to one that the other
visits. -/
theorem Visits.exists_alike {s : State W σ} (hvisits : Visits rig cfg sink w s)
    (h : rig.Alike R rig') (hw : R w w') :
    ∃ s', Visits rig' cfg sink w' s' ∧ s.Alike R s' := by
  obtain ⟨hactive, hactive'⟩ := startActive_eq_false h hw
  have htime : startTime rig w = startTime rig' w' := (h.now hw).1
  induction hvisits with
  | refl => exact ⟨_, .refl, startState_alike h hw⟩
  | tail _ hturn ih =>
      obtain ⟨t', hvisits', halike⟩ := ih
      rw [hactive, htime] at hturn
      obtain ⟨u', hturn', halike'⟩ := hturn.exists_alike h halike
      rw [← hactive'] at hturn'
      exact ⟨u', .tail hvisits' hturn', halike'⟩

/-- Whatever one run does, the other does too. -/
theorem exists_run_alike (h : rig.Alike R rig') (hw : R w w') {r : Run W σ}
    (hr : run rig cfg sink w = .ok r) :
    ∃ r', run rig' cfg sink w' = .ok r' ∧ r.Alike R r' := by
  obtain ⟨hactive, hactive'⟩ := startActive_eq_false h hw
  have htime : startTime rig w = startTime rig' w' := (h.now hw).1
  obtain ⟨s, ending, final, hvisits, hleaves, rfl⟩ := exists_visits_of_run hr
  obtain ⟨s', hvisits', hs⟩ := hvisits.exists_alike h hw
  rw [hactive, htime] at hleaves
  obtain ⟨final', hleaves', hfinal⟩ := hleaves.exists_alike h hs
  rw [← hactive'] at hleaves'
  refine ⟨_, run_of_leaves hvisits' hleaves', ?_⟩
  refine ⟨rfl, htime, ?_, ⟨hactive, hactive'⟩, ?_, hfinal.ticked h⟩
  · simp only [Run.ofEnd, htime, (h.now hfinal.world).1]
  · simp only [Run.ofEnd, h.canPin]

omit [Sink σ] [Scalar α] [Logarithm α] in
theorem Run.Alike.calls_eq {r : Run W σ} {r' : Run W' σ} (h : r.Alike R r') :
    r.calls.map Call.withoutReadings = r'.calls.map Call.withoutReadings := by
  have hpasses := congrArg (fun ps => ps.toList.flatMap Pass.calls) h.state.passes
  simp only [Array.toList_map, List.flatMap_map, Pass.calls_withoutReadings] at hpasses
  rw [Run.calls, Run.calls, List.map_flatMap, List.map_flatMap]
  exact hpasses

end

end CostAudit.Loop
