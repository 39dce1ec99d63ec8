import CostAudit.Proofs.Loop.Sizes

/-!
# The budget that ends a run

A run that a budget ends names that budget. Either the budget is used up at
a head of the loop, or it leaves no room for a sample as large as the last
one. In the second case the loop first finds that the next size fell below
the last one, and asks only afterwards which cap made it so. Doubling never
lowers a size and the floor of one is never above the last size, so one of
the three caps did (`shortOfTime_of_nextSize_lt` for the one asked last).

The budgets are asked in a fixed order, and one is named only when those
before it still leave room (`Settings.Binds`).
-/

namespace CostAudit.Loop

section

variable {α : Type} [Scalar α] {cfg : Settings α} {s : Series} {elapsed : Duration}
variable {prev : Sample} {budget : Budget}

/-- What is left of the sample budget is below the last size. -/
def Settings.ShortOfSamples (cfg : Settings α) (s : Series) (prev : Sample) : Prop :=
  cfg.sampleBudget.toNat - s.units.toNat < prev.size.toNat

/-- There is a memory cap at the last rate, and it is below the last size. -/
def Settings.ShortOfMemory (cfg : Settings α) (s : Series) (prev : Sample) : Prop :=
  ∃ cap, cfg.sizeForMemory? s prev = some cap ∧ cap < prev.size

/-- There is a time cap at the last rate, and it is below the last size. -/
def Settings.ShortOfTime (cfg : Settings α) (elapsed : Duration) (prev : Sample) : Prop :=
  ∃ cap, cfg.sizeForTime? elapsed prev = some cap ∧ cap < prev.size

/-- The budget leaves no room for a sample as large as the last one, while
the budgets asked before it do. -/
def Settings.Short (cfg : Settings α) (s : Series) (elapsed : Duration) (prev : Sample) :
    Budget → Prop
  | .samples => cfg.ShortOfSamples s prev
  | .memory => ¬cfg.ShortOfSamples s prev ∧ cfg.ShortOfMemory s prev
  | .time =>
    ¬cfg.ShortOfSamples s prev ∧ ¬cfg.ShortOfMemory s prev ∧ cfg.ShortOfTime elapsed prev

/-- The budget is used up after a series, some time after the start, or it is
short of a sample as large as the last one. -/
def Settings.Binds (cfg : Settings α) (s : Series) (elapsed : Duration) : Budget → Prop
  | .samples =>
    cfg.sampleBudget ≤ s.units ∨
      ∃ prev, s.last? = some prev ∧ cfg.Short s elapsed prev .samples
  | .memory =>
    s.units < cfg.sampleBudget ∧
      (cfg.memoryBudget ≤ s.measured ∨
        ∃ prev, s.last? = some prev ∧ cfg.Short s elapsed prev .memory)
  | .time =>
    s.units < cfg.sampleBudget ∧ s.measured < cfg.memoryBudget ∧
      (cfg.timeBudget ≤ elapsed ∨
        ∃ prev, s.last? = some prev ∧ cfg.Short s elapsed prev .time)

/-! ## Caps -/

omit [Scalar α] in
theorem samplesLeft_lt_iff : cfg.samplesLeft s < prev.size ↔ cfg.ShortOfSamples s prev := by
  rw [Settings.ShortOfSamples, UInt64.lt_iff_toNat_lt, Settings.samplesLeft, toNat_satSub]

theorem any_lt_iff {cap : Option UInt64} {size : UInt64} :
    cap.any (· < size) = true ↔ ∃ c, cap = some c ∧ c < size := by
  cases cap <;> simp

/-- Where neither the samples nor the memory made the next size smaller than
the last one, the time did. -/
theorem shortOfTime_of_nextSize_lt (hless : cfg.nextSize s elapsed prev < prev.size)
    (hsamples : ¬cfg.ShortOfSamples s prev) (hmemory : ¬cfg.ShortOfMemory s prev) :
    cfg.ShortOfTime elapsed prev := by
  by_contra htime
  rw [← samplesLeft_lt_iff] at hsamples
  rw [Settings.ShortOfMemory, ← any_lt_iff] at hmemory
  rw [Settings.ShortOfTime, ← any_lt_iff] at htime
  exact UInt64.not_lt.mpr (le_nextSize hsamples hmemory htime) hless

theorem short_of_shortBudget (h : cfg.shortBudget s elapsed prev = .ok budget) :
    cfg.Short s elapsed prev budget := by
  unfold Settings.shortBudget at h
  split at h <;> rename_i hsamples <;> rw [samplesLeft_lt_iff] at hsamples
  · cases h
    exact hsamples
  · split at h <;> rename_i hmemory <;> rw [any_lt_iff] at hmemory
    · cases h
      exact ⟨hsamples, hmemory⟩
    · split at h <;> rename_i htime <;> rw [any_lt_iff] at htime
      · cases h
        exact ⟨hsamples, hmemory, htime⟩
      · cases h

/-! ## The decision to stop -/

theorem binds_of_short (haffords : cfg.Affords s elapsed) (hlast : s.last? = some prev)
    (h : cfg.Short s elapsed prev budget) : cfg.Binds s elapsed budget := by
  cases budget with
  | samples => exact Or.inr ⟨prev, hlast, h⟩
  | memory => exact ⟨haffords.units, Or.inr ⟨prev, hlast, h⟩⟩
  | time => exact ⟨haffords.units, haffords.measured, Or.inr ⟨prev, hlast, h⟩⟩

theorem binds_of_next_stop (h : cfg.next s elapsed = .ok (.stop budget)) :
    cfg.Binds s elapsed budget := by
  have hdecides := decides_next cfg s elapsed
  rw [h] at hdecides
  cases hdecides with
  | samplesSpent hspent => exact Or.inl hspent
  | memorySpent hunits hspent => exact ⟨hunits, Or.inl hspent⟩
  | timeSpent hunits hmeasured hspent => exact ⟨hunits, hmeasured, Or.inl hspent⟩
  | short haffords hlast _ hshort =>
      exact binds_of_short haffords hlast (short_of_shortBudget hshort)

end

/-! ## Whole runs -/

section

variable {W σ α : Type} [Sink σ] [Scalar α] [Logarithm α]
variable (rig : Rig W σ) (cfg : Settings α) (sink : σ) (w : W)

/-- **The budget that ends a run.** Whatever numbers the caps come from, a
next size below the last one is the doing of a budget that can be named.
Every run ends with a record, and when a budget ended it, that budget binds:
after the samples kept and at the time read at the last head of the loop. -/
theorem stopped_budget_binds :
    (∀ (s : Series) (elapsed : Duration) (prev : Sample),
      cfg.nextSize s elapsed prev < prev.size → ¬cfg.ShortOfSamples s prev →
        ¬cfg.ShortOfMemory s prev → cfg.ShortOfTime elapsed prev) ∧
    ∃ r, run rig cfg sink w = .ok r ∧
      ∀ budget head, r.ending = .stopped budget head →
        cfg.Binds r.state.series head budget ∧
        ∃ s, Visits rig cfg sink w s ∧ s.series = r.state.series ∧
          head = headTime rig (startTime rig w) s := by
  refine ⟨fun s elapsed prev => shortOfTime_of_nextSize_lt, ?_⟩
  obtain ⟨r, hr⟩ := exists_run_eq_ok rig cfg sink w
  refine ⟨r, hr, ?_⟩
  intro budget head hending
  obtain ⟨s, hvisits, -, hnext, rfl, rfl⟩ := exists_visits_of_stopped hr hending
  exact ⟨binds_of_next_stop hnext, s, hvisits, rfl, rfl⟩

end

end CostAudit.Loop
