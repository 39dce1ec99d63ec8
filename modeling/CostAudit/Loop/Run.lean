import CostAudit.Loop.Pass

/-!
# Runs

A run takes pass after pass until a budget is used up, or until the
workload gives up or the sink counts as failed. Each pass adds at least
one to the sum of the sizes, which stays below its budget while the run
goes on; so every run ends.
-/

namespace CostAudit.Loop

/-- How a run ended. -/
inductive Ending where
  /-- A budget was used up; `head` is the time since the start at which
  that was found. -/
  | stopped (budget : Budget) (head : Duration)
  | aborted

/-- A run that has ended. -/
structure Run (W σ : Type) where
  ending : Ending
  origin : Duration
  elapsed : Duration
  probeActive : Bool
  pinned : Bool
  state : State W σ

namespace Run

variable {W σ : Type}

/-- Whether the run was stopped before a budget was used up. -/
def wasAborted (r : Run W σ) : Bool :=
  match r.ending with
  | .stopped _ _ => false
  | .aborted => true

/-- Measured bytes without the bytes spent on keeping values alive. -/
def netMeasured (r : Run W σ) : UInt64 :=
  satSub r.state.series.measured r.state.retention.overhead

/-- Every call of the workload, in order. -/
def calls (r : Run W σ) : List Call := r.state.passes.toList.flatMap Pass.calls

end Run

/-! ## Every run ends -/

/-- The run goes on only while the sum of the sizes is below its budget,
and then with a size of at least one. -/
theorem units_lt_of_next_call {α : Type} [Scalar α] {cfg : Settings α} {s : Series}
    {elapsed : Duration} {size : UInt64} (h : cfg.next s elapsed = .ok (.call size)) :
    s.units < cfg.sampleBudget ∧ 1 ≤ size := by
  unfold Settings.next at h
  split at h
  · cases h
  · rename_i hn
    refine ⟨UInt64.not_le.mp hn, ?_⟩
    split at h
    · cases h
    · split at h
      · cases h
      · split at h
        · cases h
          decide
        · simp only at h
          split at h
          · rename_i prev _ _
            cases hb : cfg.shortBudget s elapsed prev <;> rw [hb] at h <;> cases h
          · cases h
            rw [UInt64.le_iff_toNat_le, Settings.nextSize, toNat_max]
            exact Nat.le_max_right _ _

/-- A pass brings the sum of the sizes closer to its budget. -/
theorem units_push_lt {α : Type} {cfg : Settings α} {s t : Series} {x : Sample}
    (hlt : s.units < cfg.sampleBudget) (hx : 1 ≤ x.size) (hpush : s.push x = .ok t) :
    cfg.sampleBudget.toNat - t.units.toNat < cfg.sampleBudget.toNat - s.units.toNat := by
  unfold Series.push at hpush
  split at hpush
  · cases hpush
    have h := toNat_satAdd s.units x.size
    have hm := cfg.sampleBudget.toNat_lt
    rw [UInt64.lt_iff_toNat_lt] at hlt
    rw [UInt64.le_iff_toNat_le] at hx
    have h1 : (1 : UInt64).toNat = 1 := rfl
    show cfg.sampleBudget.toNat - (satAdd s.units x.size).toNat < _
    omega
  · cases hpush

section

variable {W σ α : Type} [Sink σ] [Scalar α] [Logarithm α]

def iterate (rig : Rig W σ) (cfg : Settings α) (origin : Duration) (probeActive : Bool)
    (s : State W σ) : Except Fault (Ending × State W σ) :=
  if Sink.failed s.sink then .ok (.aborted, s)
  else
    let (now, w) := rig.now s.world
    let head := now.satSub origin
    match _hnext : cfg.next s.series head with
    | .error fault => .error fault
    | .ok (.stop budget) => .ok (.stopped budget head, { s with world := w })
    | .ok (.call size) =>
      let taken := takePass rig cfg origin probeActive size { s with world := w }
      let passes := s.passes.push taken.pass
      match _hsample : taken.sample? with
      | none => .ok (.aborted, { taken.state with passes })
      | some x =>
        match _hpush : s.series.push x with
        | .error fault => .error fault
        | .ok series => iterate rig cfg origin probeActive { taken.state with series, passes }
termination_by cfg.sampleBudget.toNat - s.series.units.toNat
decreasing_by
  have h := units_lt_of_next_call _hnext
  exact units_push_lt h.1 (takePass_sample_size _hsample ▸ h.2) _hpush

def run (rig : Rig W σ) (cfg : Settings α) (sink : σ) (w : W) : Except Fault (Run W σ) := do
  let (origin, w) := rig.now w
  let (probeActive, w) := rig.active w
  let (ending, s) ← iterate rig cfg origin probeActive (.initial sink w)
  let (now, w) := rig.now s.world
  return {
    ending
    origin
    elapsed := now.satSub origin
    probeActive
    pinned := cfg.pinThread && rig.canPin
    state := { s with world := w } }

end

end CostAudit.Loop
