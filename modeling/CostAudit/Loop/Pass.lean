import CostAudit.Loop.Settings
import CostAudit.Probe
import CostAudit.Workload

/-!
# Passes

A pass takes one sample. The workload is called between two readings of
the clock, and those between two readings of the probe. A time above the
spike limit is not trusted: the ledger and the kept values go back to
where they were before the call, and the call is made once more at the
same size. When a second call does not fit into the time budget, the first
one is kept and a line in the log says so. When the second call is a spike
too, it is kept with the shorter of the two times.

A pass leaves a record of its calls: every reading, the reply of the
workload, and what was made of a spike. The rig supplies the readings and
the replies from a world that changes with each of them.
-/

namespace CostAudit

/-- The longest time at size `n` that is no spike after a time `prev` at
size `prevN`. A call that takes far longer than the one before it has
probably been interrupted; the limit allows for time that grows with the
logarithm of the size, and there is none after a size of one, whose
logarithm is zero. -/
def spikeLimit {α : Type} [Scalar α] [Logarithm α]
    (prev : α) (prevN n : Nat) (scale : α) : Option α :=
  if prevN ≤ 1 || n == 0 then none
  else some (prev * Logarithm.log (Scalar.ofNat n) / Logarithm.log (Scalar.ofNat prevN) * scale)

end CostAudit

namespace CostAudit.Loop

/-- Where readings and replies come from, and how the world goes on. -/
structure Rig (W σ : Type) where
  now : W → Duration × W
  active : W → Bool × W
  read : ProbeMode → W → UInt64 × W
  call : Iteration σ → W → Reply × W
  canPin : Bool := false

/-- The record of one call of the workload. -/
structure Call where
  size : UInt64
  before : UInt64
  started : Duration
  reply : Reply
  ended : Duration
  after : UInt64

/-- What was made of a possible spike. -/
inductive FollowUp where
  /-- The first call was kept, or the run stopped. -/
  | none
  /-- A spike was kept for lack of time, and this line logged. -/
  | noTime (line : String)
  | repeated (call : Call)

/-- The record of one pass. -/
structure Pass where
  first : Call
  followUp : FollowUp

/-- The calls of a pass, in order. -/
def Pass.calls (p : Pass) : List Call :=
  match p.followUp with
  | .repeated second => [p.first, second]
  | _ => [p.first]

/-- Where a run stands. -/
structure State (W σ : Type) where
  series : Series
  ledger : Ledger
  retention : Retention
  sink : σ
  world : W
  passes : Array Pass

def State.initial {W σ : Type} (sink : σ) (world : W) : State W σ where
  series := {}
  ledger := {}
  retention := {}
  sink := sink
  world := world
  passes := #[]

/-- A call and what came of it; no sample when the run must stop. -/
structure Attempt (W σ : Type) where
  call : Call
  sample? : Option Sample
  state : State W σ

/-- A pass and what came of it; no sample when the run must stop. -/
structure Taken (W σ : Type) where
  pass : Pass
  sample? : Option Sample
  state : State W σ

section

variable {W σ α : Type} [Sink σ] [Scalar α] [Logarithm α]
variable (rig : Rig W σ) (cfg : Settings α)

/-- The sample of a call, given the ledgers before and after it. -/
def Call.sample (c : Call) (probeActive : Bool) (before after : Ledger) : Sample where
  size := c.size
  elapsed := c.ended.satSub c.started
  measured := if probeActive then satSub c.after c.before else 0
  declaredBytes := after.bytes - before.bytes
  declaredSteps := after.steps - before.steps

def attempt (probeActive : Bool) (size : UInt64) (s : State W σ) : Attempt W σ :=
  let (before, w) := rig.read cfg.mode s.world
  let (started, w) := rig.now w
  let it : Iteration σ := ⟨size, s.ledger, s.retention, s.sink⟩
  let (reply, w) := rig.call it w
  let it := it.perform reply.actions
  let (ended, w) := rig.now w
  let (after, w) := rig.read cfg.mode w
  let call : Call := { size, before, started, reply, ended, after }
  { call
    sample? :=
      if reply.aborted || Sink.failed it.sink then none
      else some (call.sample probeActive s.ledger it.ledger)
    state :=
      { s with
        ledger := it.ledger
        retention := it.retention.clear
        sink := it.sink
        world := w } }

def spike? (s : Series) (x : Sample) : Option α :=
  s.last?.bind fun prev =>
    (spikeLimit (α := α) prev.nanos prev.size.toNat x.size.toNat cfg.noiseScale).filter
      fun limit => Scalar.lt limit x.nanos

/-- The line logged for a spike that is kept for lack of time. -/
def spikeLine (x : Sample) (limit : α) : String :=
  "spike at N=" ++ Decimal.text x.size.toNat ++ " kept without retry: " ++
    Scalar.rounded (x.nanos : α) ++ " ns against a " ++ Scalar.rounded limit ++
    " ns reference, no time left to repeat it"

/-- Whether a sample can be repeated at its observed time within the time
budget. -/
def fits (origin now : Duration) (x : Sample) : Bool :=
  (now.satSub origin).satAdd x.elapsed ≤ cfg.timeBudget

/-- The sample to keep of a spike and its repetition: the second, and if
that is a spike too, with the shorter of the two times. -/
def settle (limit : α) (first second : Sample) : Sample :=
  if Scalar.lt limit (second.nanos : α) then
    { second with elapsed := first.elapsed.shorter second.elapsed }
  else second

/-- Puts the ledger and the kept values back to where they were in an
earlier state. -/
def State.rollback (s earlier : State W σ) : State W σ :=
  { s with
    ledger := earlier.ledger
    retention := s.retention.rollback earlier.retention.mark }

def repeatSpike (probeActive : Bool) (limit : α) (first : Call) (x : Sample)
    (earlier s : State W σ) : Taken W σ :=
  let second := attempt rig cfg probeActive x.size (s.rollback earlier)
  { pass := ⟨first, .repeated second.call⟩
    sample? := second.sample?.map (settle limit x)
    state := second.state }

def takePass (origin : Duration) (probeActive : Bool) (size : UInt64) (s : State W σ) :
    Taken W σ :=
  let first := attempt rig cfg probeActive size s
  match first.sample? with
  | none => ⟨⟨first.call, .none⟩, none, first.state⟩
  | some x =>
    match spike? cfg s.series x with
    | none => ⟨⟨first.call, .none⟩, some x, first.state⟩
    | some limit =>
      let (now, w) := rig.now first.state.world
      let state := { first.state with world := w }
      if fits cfg origin now x then
        repeatSpike rig cfg probeActive limit first.call x s state
      else
        let line := spikeLine x limit
        { pass := ⟨first.call, .noTime line⟩
          sample? := some x
          state := { state with sink := Sink.note state.sink line } }

end

/-! ## The size of the sample -/

section

variable {W σ α : Type} [Sink σ] {rig : Rig W σ} {cfg : Settings α}

theorem attempt_sample_size {probeActive : Bool} {size : UInt64} {s : State W σ} {x : Sample}
    (h : (attempt rig cfg probeActive size s).sample? = some x) : x.size = size := by
  simp only [attempt] at h
  split at h
  · cases h
  · cases h
    rfl

theorem settle_size [Scalar α] (limit : α) (first second : Sample) :
    (settle limit first second).size = second.size := by
  unfold settle
  split <;> rfl

/-- A pass at some size yields a sample of that size. -/
theorem takePass_sample_size [Scalar α] [Logarithm α] {origin : Duration} {probeActive : Bool}
    {size : UInt64} {s : State W σ} {x : Sample}
    (h : (takePass rig cfg origin probeActive size s).sample? = some x) : x.size = size := by
  unfold takePass at h
  simp only at h
  split at h
  · cases h
  · rename_i y hy
    have hn := attempt_sample_size hy
    split at h
    · cases h
      exact hn
    · split at h
      · simp only [repeatSpike, Option.map_eq_some_iff] at h
        obtain ⟨z, hz, rfl⟩ := h
        rw [settle_size, attempt_sample_size hz, hn]
      · cases h
        exact hn

end

end CostAudit.Loop
