import CostAudit.Loop.Pass
import CostAudit.Proofs.Retention.Room

/-!
# What a pass does

The theory of the loop never unfolds `attempt` or `takePass`. What it uses
of a single call are the fields of the attempt, read off the record of the
call (`attempt_ledger`, `attempt_retention`, `attempt_sink`). What it uses
of a pass is `passEnds_takePass`: a pass ends in one of the four ways that
`PassEnds` lists, each with everything that was decided on the way.

`PassEnds.keeps` is the summary for a pass that yields a sample. Whatever
was repeated, the ledger, the kept values and the sample are those of one
call made from the state at the beginning of the pass; all that is left of
a discarded call is the room it made in the list.
-/

namespace CostAudit.Loop

/-- The last call of a pass, which is the one kept when the pass yields a
sample. -/
def Pass.last (p : Pass) : Call :=
  match p.followUp with
  | .repeated second => second
  | _ => p.first

/-- The calls of a pass that are thrown away. -/
def Pass.discarded (p : Pass) : List Call :=
  match p.followUp with
  | .repeated _ => [p.first]
  | _ => []

theorem Pass.calls_eq (p : Pass) : p.calls = p.discarded ++ [p.last] := by
  unfold calls discarded last
  cases p.followUp <;> rfl

/-- The room of a list after a call that finds it empty. -/
def Call.roomAfter (room : Nat) (c : Call) : Nat :=
  Retention.roomAfter room (Retention.enlargements 0 room c.reply.kept.length)

/-- The time that a call took. -/
def Call.elapsed (c : Call) : Duration := c.ended.satSub c.started

/-- The sample of a call that was made with a ledger. -/
def Call.sampleFrom (c : Call) (probeActive : Bool) (l : Ledger) : Sample :=
  c.sample probeActive l (l.recordAll c.reply.actions)

section

variable {W σ α : Type} [Sink σ] (rig : Rig W σ) (cfg : Settings α) (probeActive : Bool)
variable (size : UInt64) (s : State W σ)

/-! ## One call -/

theorem attempt_ledger :
    (attempt rig cfg probeActive size s).state.ledger =
      s.ledger.recordAll (attempt rig cfg probeActive size s).call.reply.actions :=
  Iteration.perform_ledger _ _

theorem attempt_retention :
    (attempt rig cfg probeActive size s).state.retention =
      (s.retention.keepAll (attempt rig cfg probeActive size s).call.reply.kept).clear :=
  congrArg Retention.clear (Iteration.perform_retention _ _)

theorem attempt_sink :
    (attempt rig cfg probeActive size s).state.sink =
      (attempt rig cfg probeActive size s).call.reply.actions.foldl Sink.tell s.sink :=
  Iteration.perform_sink _ _

theorem attempt_sample? :
    (attempt rig cfg probeActive size s).sample? =
      if (attempt rig cfg probeActive size s).call.reply.aborted ||
          Sink.failed (attempt rig cfg probeActive size s).state.sink then none
      else some ((attempt rig cfg probeActive size s).call.sample probeActive s.ledger
        (attempt rig cfg probeActive size s).state.ledger) := rfl

theorem attempt_sample?_eq_none_iff :
    (attempt rig cfg probeActive size s).sample? = none ↔
      (attempt rig cfg probeActive size s).call.reply.aborted = true ∨
        Sink.failed (attempt rig cfg probeActive size s).state.sink = true := by
  rw [attempt_sample?, ← Bool.or_eq_true]
  split <;> rename_i h <;> simp [h]

variable {rig cfg probeActive size s} in
theorem attempt_sample {x : Sample}
    (h : (attempt rig cfg probeActive size s).sample? = some x) :
    x = (attempt rig cfg probeActive size s).call.sample probeActive s.ledger
      (attempt rig cfg probeActive size s).state.ledger := by
  rw [attempt_sample?] at h
  split at h
  · cases h
  · exact (Option.some.inj h).symm

variable {rig cfg probeActive size s} in
theorem attempt_sampleFrom {x : Sample}
    (h : (attempt rig cfg probeActive size s).sample? = some x) :
    x = (attempt rig cfg probeActive size s).call.sampleFrom probeActive s.ledger := by
  rw [attempt_sample h, attempt_ledger]
  rfl

end

/-! ## A call that is kept -/

section

variable {W σ α : Type} [Sink σ] {rig : Rig W σ} {cfg : Settings α} {probeActive : Bool}
variable {size : UInt64} {s : State W σ} {t : Taken W σ}

/-- What a pass that yields a sample `x` has done, told as one call made
from the state `s` before the pass. Discarded calls show only in the room
that this call found. -/
structure Keeps (probeActive : Bool) (s : State W σ) (t : Taken W σ) (x : Sample) : Prop where
  ledger : t.state.ledger = s.ledger.recordAll t.pass.last.reply.actions
  retention : t.state.retention =
    ({ s.retention with
        capacity := t.pass.discarded.foldl Call.roomAfter s.retention.capacity }.keepAll
      t.pass.last.reply.kept).clear
  size : x.size = t.pass.last.size
  measured : x.measured =
    if probeActive then satSub t.pass.last.after t.pass.last.before else 0
  declaredBytes : x.declaredBytes = t.state.ledger.bytes - s.ledger.bytes
  declaredSteps : x.declaredSteps = t.state.ledger.steps - s.ledger.steps

/-- A first call that is kept. -/
theorem keeps_attempt {x : Sample} (hx : (attempt rig cfg probeActive size s).sample? = some x)
    (hlast : t.pass.last = (attempt rig cfg probeActive size s).call)
    (hdiscarded : t.pass.discarded = [])
    (hledger : t.state.ledger = (attempt rig cfg probeActive size s).state.ledger)
    (hretention : t.state.retention = (attempt rig cfg probeActive size s).state.retention) :
    Keeps probeActive s t x := by
  obtain rfl := attempt_sample hx
  refine ⟨?_, ?_, ?_, ?_, ?_, ?_⟩
  · rw [hledger, hlast, attempt_ledger]
  · rw [hretention, hlast, hdiscarded, attempt_retention]
    rfl
  all_goals simp only [Call.sample, hlast, hledger]

/-- After a call that found the list empty, a rollback to before the call
leaves only the room that the call made. -/
theorem rollback_attempt_retention (hempty : s.retention.sizes = #[]) (world : W) :
    (({ (attempt rig cfg probeActive size s).state with world } : State W σ).rollback s).retention
      = { s.retention with
          capacity := (attempt rig cfg probeActive size s).call.roomAfter s.retention.capacity }
      := by
  have hroom := Retention.capacity_keepAll
    (attempt rig cfg probeActive size s).call.reply.kept s.retention
  have hlength : s.retention.length = 0 := by rw [Retention.length, hempty]; rfl
  rw [hlength] at hroom
  simp only [State.rollback, attempt_retention, Retention.rollback, Retention.clear,
    Retention.mark, Call.roomAfter, hroom, hempty, hlength]
  rfl

theorem settle_eq [Scalar α] (limit : α) (x y : Sample) :
    settle limit x y = { y with elapsed := (settle limit x y).elapsed } := by
  unfold settle
  split <;> rfl

theorem settle_elapsed_le [Scalar α] (limit : α) (x y : Sample) :
    (settle limit x y).elapsed ≤ y.elapsed := by
  unfold settle
  split
  · rw [Duration.le_iff, Duration.nanos_shorter]
    exact Nat.min_le_right ..
  · exact Nat.le_refl _

/-- A second call that is kept. -/
theorem keeps_repeatSpike [Scalar α] {x y : Sample} {limit : α} {world : W}
    (hempty : s.retention.sizes = #[])
    (hy : (repeatSpike rig cfg probeActive limit (attempt rig cfg probeActive size s).call x s
      { (attempt rig cfg probeActive size s).state with world }).sample? = some y) :
    Keeps probeActive s (repeatSpike rig cfg probeActive limit
      (attempt rig cfg probeActive size s).call x s
      { (attempt rig cfg probeActive size s).state with world }) y := by
  simp only [repeatSpike, Option.map_eq_some_iff] at hy
  obtain ⟨z, hz, rfl⟩ := hy
  have hsample := attempt_sample hz
  rw [settle_eq]
  refine ⟨?_, ?_, ?_, ?_, ?_, ?_⟩
  · exact attempt_ledger ..
  · have hretention := attempt_retention rig cfg probeActive x.size
      (({ (attempt rig cfg probeActive size s).state with world } : State W σ).rollback s)
    rw [rollback_attempt_retention hempty] at hretention
    exact hretention
  all_goals rw [hsample]; rfl

end

/-! ## A pass -/

section

variable {W σ α : Type} [Sink σ] [Scalar α] [Logarithm α]
variable (rig : Rig W σ) (cfg : Settings α) (origin : Duration) (probeActive : Bool)
variable (size : UInt64) (s : State W σ)

/-- The state after a first call and one more reading of the clock, which
decides whether there is time to repeat the call. -/
def afterFirst : State W σ :=
  let first := (attempt rig cfg probeActive size s).state
  { first with world := (rig.now first.world).2 }

/-- The ways a pass from a state at some size can end. -/
inductive PassEnds : Taken W σ → Prop
  /-- The first call stops the run. -/
  | gaveUp (hfirst : (attempt rig cfg probeActive size s).sample? = none) :
      PassEnds ⟨⟨(attempt rig cfg probeActive size s).call, .none⟩, none,
        (attempt rig cfg probeActive size s).state⟩
  /-- The first call is no spike. -/
  | kept {x : Sample} (hfirst : (attempt rig cfg probeActive size s).sample? = some x)
      (hspike : spike? cfg s.series x = none) :
      PassEnds ⟨⟨(attempt rig cfg probeActive size s).call, .none⟩, some x,
        (attempt rig cfg probeActive size s).state⟩
  /-- The first call is a spike that there is no time to repeat. -/
  | noTime {x : Sample} {limit : α}
      (hfirst : (attempt rig cfg probeActive size s).sample? = some x)
      (hspike : spike? cfg s.series x = some limit)
      (hfits : fits cfg origin (rig.now (attempt rig cfg probeActive size s).state.world).1 x
        = false) :
      PassEnds ⟨⟨(attempt rig cfg probeActive size s).call, .noTime (spikeLine x limit)⟩, some x,
        { afterFirst rig cfg probeActive size s with
          sink := Sink.note (attempt rig cfg probeActive size s).state.sink
            (spikeLine x limit) }⟩
  /-- The first call is a spike, and is repeated. -/
  | repeated {x : Sample} {limit : α}
      (hfirst : (attempt rig cfg probeActive size s).sample? = some x)
      (hspike : spike? cfg s.series x = some limit)
      (hfits : fits cfg origin (rig.now (attempt rig cfg probeActive size s).state.world).1 x
        = true) :
      PassEnds (repeatSpike rig cfg probeActive limit
        (attempt rig cfg probeActive size s).call x s (afterFirst rig cfg probeActive size s))

theorem passEnds_takePass :
    PassEnds rig cfg origin probeActive size s (takePass rig cfg origin probeActive size s) := by
  simp only [takePass]
  split
  · rename_i hnone
    exact .gaveUp hnone
  · rename_i x hx
    split
    · rename_i hspike
      exact .kept hx hspike
    · rename_i limit hspike
      split
      · rename_i hfits
        exact .repeated hx hspike hfits
      · rename_i hfits
        exact .noTime hx hspike (Bool.eq_false_iff.mpr hfits)

variable {rig cfg origin probeActive size s} {t : Taken W σ}

/-- A pass leaves the series alone. -/
theorem PassEnds.series_eq (h : PassEnds rig cfg origin probeActive size s t) :
    t.state.series = s.series := by
  cases h <;> rfl

theorem PassEnds.size_of_mem_calls (h : PassEnds rig cfg origin probeActive size s t)
    {c : Call} (hc : c ∈ t.pass.calls) : c.size = size := by
  cases h with
  | gaveUp => exact List.mem_singleton.mp hc ▸ rfl
  | kept => exact List.mem_singleton.mp hc ▸ rfl
  | noTime => exact List.mem_singleton.mp hc ▸ rfl
  | repeated hfirst =>
      rcases List.mem_cons.mp hc with rfl | hc
      · rfl
      · rw [List.mem_singleton.mp hc]
        exact attempt_sample_size hfirst

theorem PassEnds.keeps (h : PassEnds rig cfg origin probeActive size s t)
    (hempty : s.retention.sizes = #[]) {x : Sample} (hx : t.sample? = some x) :
    Keeps probeActive s t x := by
  cases h with
  | gaveUp => cases hx
  | kept hfirst =>
      cases hx
      exact keeps_attempt hfirst rfl rfl rfl rfl
  | noTime hfirst =>
      cases hx
      exact keeps_attempt hfirst rfl rfl rfl rfl
  | repeated => exact keeps_repeatSpike hempty hx

/-- The time kept of a pass is at most that of its last call. -/
theorem PassEnds.elapsed_le_last (h : PassEnds rig cfg origin probeActive size s t) {x : Sample}
    (hx : t.sample? = some x) : x.elapsed ≤ t.pass.last.elapsed := by
  cases h with
  | gaveUp => cases hx
  | kept hfirst =>
      cases hx
      exact Nat.le_of_eq (congrArg (·.elapsed.nanos) (attempt_sampleFrom hfirst))
  | noTime hfirst =>
      cases hx
      exact Nat.le_of_eq (congrArg (·.elapsed.nanos) (attempt_sampleFrom hfirst))
  | repeated =>
      simp only [repeatSpike, Option.map_eq_some_iff] at hx
      obtain ⟨z, hz, rfl⟩ := hx
      obtain rfl := attempt_sampleFrom hz
      exact settle_elapsed_le ..

end

end CostAudit.Loop
