import CostAudit.Proofs.Loop.Accounts
import CostAudit.Proofs.Scalar

/-!
# Spikes

A first call whose time is above the limit is never kept silently and never
repeated twice. `Resolves` says what becomes of it in each of three cases:
no spike, a spike that there is no time to repeat, a spike that is repeated.
It speaks of the calls, the sample and the sink together, since the three
are updated in different places and have to stay in step.

The shorter time is taken only where the second call is a spike too
(`settle`). Where it is none, its time is the shorter one anyway: it is not
above a limit that the first time is above (`settle_elapsed`). The limit may
be no number; then nothing is above it and there is no spike.
-/

namespace CostAudit.Loop

section

variable {α : Type} [Scalar α] [Logarithm α] {cfg : Settings α} {s : Series}
variable {prev x : Sample} {limit : α}

/-- The sample `prev` sets a limit for the size of `x`, and the time of `x`
is above it. -/
structure Settings.Exceeds (cfg : Settings α) (prev x : Sample) (limit : α) : Prop where
  isLimit : spikeLimit (prev.nanos : α) prev.size.toNat x.size.toNat cfg.noiseScale = some limit
  above : Scalar.lt limit (x.nanos : α) = true

def Settings.IsSpike (cfg : Settings α) (prev x : Sample) : Prop :=
  ∃ limit : α, cfg.Exceeds prev x limit

/-! ## The limit -/

theorem spike?_eq_some_iff (hlast : s.last? = some prev) :
    spike? cfg s x = some limit ↔ cfg.Exceeds prev x limit := by
  rw [spike?, hlast, Option.bind_some, Option.filter_eq_some_iff]
  exact ⟨fun ⟨hlimit, habove⟩ => ⟨hlimit, habove⟩, fun h => ⟨h.isLimit, h.above⟩⟩

theorem not_isSpike_of_spike?_eq_none (hlast : s.last? = some prev)
    (h : spike? cfg s x = none) : ¬cfg.IsSpike prev x := by
  rintro ⟨limit, hexceeds⟩
  rw [(spike?_eq_some_iff hlast).mpr hexceeds] at h
  cases h

/-- After a size of at most one there is no limit. -/
theorem Settings.Exceeds.one_lt (h : cfg.Exceeds prev x limit) : 1 < prev.size := by
  rw [← UInt64.not_le, UInt64.le_iff_toNat_le]
  intro hle
  have hnone : spikeLimit (prev.nanos : α) prev.size.toNat x.size.toNat cfg.noiseScale = none :=
    if_pos (by simpa using Or.inl hle)
  cases hnone.symm.trans h.isLimit

theorem Settings.Exceeds.not_trusted (h : cfg.Exceeds prev x limit) :
    ¬(prev.size ≤ 1 ∨ ¬cfg.IsSpike prev x) := by
  rintro (hone | hno)
  · exact UInt64.not_le.mpr h.one_lt hone
  · exact hno ⟨limit, h⟩

omit [Logarithm α] in
/-- Of a spike and its repetition the shorter time is kept, whether or not
the repetition is a spike too. -/
theorem settle_elapsed [Scalar.KeepsOrder α] {first second : Sample}
    (habove : Scalar.lt limit (first.nanos : α) = true) :
    (settle limit first second).elapsed = first.elapsed.shorter second.elapsed := by
  unfold settle
  split
  · rfl
  · rename_i hbelow
    have hless : second.elapsed.nanos < first.elapsed.nanos := by
      rw [← Nat.not_le]
      intro hle
      exact hbelow (Scalar.lt_ofNat_of_le habove hle)
    rw [Duration.shorter, if_pos hless]

end

/-! ## A pass -/

section

variable {W σ α : Type} [Sink σ] [Scalar α] [Logarithm α]
variable (rig : Rig W σ) (cfg : Settings α) (origin : Duration) (probeActive : Bool)

/-- The time since the start at which a pass of some size, begun in a state,
finds out whether there is time to repeat its first call. -/
def retryTime (size : UInt64) (s : State W σ) : Duration :=
  headTime rig origin (attempt rig cfg probeActive size s).state

/-- The sample of the first call of a pass begun in a state. -/
def Pass.firstSample (p : Pass) (probeActive : Bool) (s : State W σ) : Sample :=
  p.first.sampleFrom probeActive s.ledger

/-- What a pass begun in the state `s` some time after the sample `prev`
makes of its first call; it yields the sample `x`. -/
structure Resolves (s : State W σ) (prev : Sample) (spent : Duration) (t : Taken W σ)
    (x : Sample) : Prop where
  /-- What is no spike is kept. -/
  trusted (h : prev.size ≤ 1 ∨ ¬cfg.IsSpike prev (t.pass.firstSample probeActive s)) :
    t.pass.calls = [t.pass.first] ∧ x = t.pass.firstSample probeActive s ∧
      t.state.sink = t.pass.first.reply.actions.foldl Sink.tell s.sink
  /-- A spike that would overrun the time budget is kept, and one line says
  so. -/
  noTime (hspike : cfg.IsSpike prev (t.pass.firstSample probeActive s))
      (hlate : cfg.timeBudget < spent.satAdd (t.pass.firstSample probeActive s).elapsed) :
    t.pass.calls = [t.pass.first] ∧ x = t.pass.firstSample probeActive s ∧
      ∃ limit : α, cfg.Exceeds prev (t.pass.firstSample probeActive s) limit ∧
        t.state.sink = Sink.note (t.pass.first.reply.actions.foldl Sink.tell s.sink)
          (spikeLine (t.pass.firstSample probeActive s) limit)
  /-- A spike that there is time to repeat is repeated once. All but the
  time is from the second call. -/
  repeated (hspike : cfg.IsSpike prev (t.pass.firstSample probeActive s))
      (htime : ¬cfg.timeBudget < spent.satAdd (t.pass.firstSample probeActive s).elapsed) :
    ∃ second, t.pass.calls = [t.pass.first, second] ∧
      x = { second.sampleFrom probeActive s.ledger with
        elapsed := t.pass.first.elapsed.shorter second.elapsed } ∧
      t.state.sink = second.reply.actions.foldl Sink.tell
        (t.pass.first.reply.actions.foldl Sink.tell s.sink)

variable {rig cfg origin probeActive} {size : UInt64} {s : State W σ} {t : Taken W σ}
variable {x : Sample}

omit [Logarithm α] in
/-- The repetition is made with the ledger from before the first call. -/
theorem repeatSpike_sample [Scalar.KeepsOrder α] {limit : α} {first : Call} {y : Sample}
    {earlier : State W σ} (habove : Scalar.lt limit (y.nanos : α) = true)
    (h : (repeatSpike rig cfg probeActive limit first y earlier s).sample? = some x) :
    x = { (repeatSpike rig cfg probeActive limit first y earlier s).pass.last.sampleFrom
        probeActive earlier.ledger with
      elapsed := y.elapsed.shorter
        (repeatSpike rig cfg probeActive limit first y earlier s).pass.last.elapsed } := by
  simp only [repeatSpike, Option.map_eq_some_iff] at h
  obtain ⟨z, hz, rfl⟩ := h
  rw [settle_eq, settle_elapsed habove, attempt_sampleFrom hz]
  rfl

theorem PassEnds.resolves [Scalar.KeepsOrder α] {prev : Sample}
    (h : PassEnds rig cfg origin probeActive size s t) (hlast : s.series.last? = some prev)
    (hx : t.sample? = some x) :
    Resolves cfg probeActive s prev (retryTime rig cfg origin probeActive size s) t x := by
  cases h with
  | gaveUp => cases hx
  | kept hfirst hspike =>
      cases hx
      obtain rfl := attempt_sampleFrom hfirst
      have hno := not_isSpike_of_spike?_eq_none hlast hspike
      exact ⟨fun _ => ⟨rfl, rfl, attempt_sink rig cfg probeActive size s⟩,
        fun h => absurd h hno, fun h => absurd h hno⟩
  | @noTime y limit hfirst hspike hfits =>
      cases hx
      obtain rfl := attempt_sampleFrom hfirst
      have hexceeds := (spike?_eq_some_iff hlast).mp hspike
      have hlate := Nat.not_le.mp (of_decide_eq_false hfits)
      refine ⟨fun h => absurd h hexceeds.not_trusted,
        fun _ _ => ⟨rfl, rfl, limit, hexceeds, ?_⟩, fun _ h => absurd hlate h⟩
      exact congrArg (Sink.note · _) (attempt_sink rig cfg probeActive size s)
  | @repeated y limit hfirst hspike hfits =>
      obtain rfl := attempt_sampleFrom hfirst
      have hexceeds := (spike?_eq_some_iff hlast).mp hspike
      have htime := Nat.not_lt.mpr (of_decide_eq_true hfits)
      refine ⟨fun h => absurd h hexceeds.not_trusted, fun _ h => absurd h htime,
        fun _ _ => ⟨_, rfl, ?_, ?_⟩⟩
      · exact repeatSpike_sample hexceeds.above hx
      · have hfirstSink : (afterFirst rig cfg probeActive size s).sink =
            (attempt rig cfg probeActive size s).call.reply.actions.foldl Sink.tell s.sink :=
          attempt_sink rig cfg probeActive size s
        rw [repeatSpike, attempt_sink, State.rollback, hfirstSink]

/-- No call of a pass takes less than the time that is kept. -/
theorem PassEnds.elapsed_le [Scalar.KeepsOrder α]
    (h : PassEnds rig cfg origin probeActive size s t) (hx : t.sample? = some x) {c : Call}
    (hc : c ∈ t.pass.calls) : x.elapsed ≤ c.elapsed := by
  rw [Pass.calls_eq, List.mem_append, List.mem_singleton] at hc
  rcases hc with hdiscarded | rfl
  · cases h with
    | gaveUp => cases hdiscarded
    | kept => cases hdiscarded
    | noTime => cases hdiscarded
    | repeated hfirst hspike =>
        obtain rfl := attempt_sampleFrom hfirst
        obtain rfl := List.mem_singleton.mp hdiscarded
        obtain ⟨prev, -, hlimit⟩ := Option.bind_eq_some_iff.mp hspike
        obtain ⟨-, habove⟩ := Option.filter_eq_some_iff.mp hlimit
        rw [repeatSpike_sample habove hx, Duration.le_iff, Duration.nanos_shorter]
        exact Nat.min_le_left ..
  · exact h.elapsed_le_last hx

end

/-! ## Whole runs -/

section

variable {W σ α : Type} [Sink σ] [Scalar α] [Logarithm α] [Scalar.KeepsOrder α]
variable (rig : Rig W σ) (cfg : Settings α) (sink : σ) (w : W)

/-- No retained time exceeds the time of a call of its pass. -/
def State.KeepsShortest (s : State W σ) : Prop :=
  List.Forall₂ (fun x p => ∀ c ∈ p.calls, x.elapsed ≤ c.elapsed)
    s.series.samples.toList s.passes.toList

variable {rig cfg sink w} in
theorem keepsShortest_of_visits {s : State W σ} (h : Visits rig cfg sink w s) : s.KeepsShortest :=
  h.forall₂ fun _ hsample _ hc => (passEnds_takePass ..).elapsed_le hsample hc

end

/-! The third pass of the run of `spikeTape` repeats a spike: its calls take
a hundred and then twenty nanoseconds. -/

section

attribute [local instance] binaryLogarithm

/-- The state of the run after some passes at the sizes 1, 2 and 4. -/
def spikeHead : Nat → State Tape Transcript
  | 0 => startState Tape.rig {} spikeTape
  | k + 1 =>
    let t := passFrom Tape.rig spikeSettings .zero true (UInt64.ofNat (2 ^ k)) (spikeHead k)
    t.sample?.elim (spikeHead k) (t.settled (spikeHead k))

theorem turn_spikeHead {k : Nat} {x : Sample}
    (hnext : spikeSettings.next (spikeHead k).series (headTime Tape.rig .zero (spikeHead k)) =
      .ok (.call (UInt64.ofNat (2 ^ k))))
    (hlive : Sink.failed (spikeHead k).sink = false)
    (hsample : (passFrom Tape.rig spikeSettings .zero true (UInt64.ofNat (2 ^ k))
      (spikeHead k)).sample? = some x)
    (hadmits : (spikeHead k).series.admits x = true) :
    Turn Tape.rig spikeSettings .zero true (spikeHead k) (spikeHead (k + 1)) := by
  have hstep : spikeHead (k + 1) = (passFrom Tape.rig spikeSettings .zero true
      (UInt64.ofNat (2 ^ k)) (spikeHead k)).settled (spikeHead k) x := by
    simp only [spikeHead, hsample, Option.elim_some]
  rw [hstep]
  exact .pass ⟨hlive, hnext⟩ hsample hadmits

end

end CostAudit.Loop
