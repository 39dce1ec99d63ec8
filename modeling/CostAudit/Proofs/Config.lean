import CostAudit.Config

/-!
# Usable configurations

`Config.validate` makes its checks one after the other and stops at the
first that fails, so a configuration passes exactly when it passes every
check: its budgets are positive, its bounds on steps do not cross and both
multipliers are positive and finite (`validate_eq_ok_iff`).
-/

namespace CostAudit.Config

/-- What `validate` asks of a configuration. -/
structure Usable (c : Config) : Prop where
  samples : 0 < c.sampleBudget
  memory : 0 < c.memoryBudget
  time : Duration.zero < c.timeBudget
  steps : ∀ min ∈ c.minMeanSteps, ∀ max ∈ c.maxMeanSteps, min ≤ max
  noise : isScale c.noiseScale = true
  growth : isScale c.growthScale = true

theorem bind_eq_ok_iff {ε : Type} {first : Except ε Unit} {rest : Unit → Except ε Unit} :
    first >>= rest = .ok () ↔ first = .ok () ∧ rest () = .ok () := by
  cases first <;> simp [bind, Except.bind]

theorem checkBudget_eq_ok_iff {b : Budget} {positive : Bool} :
    checkBudget b positive = .ok () ↔ positive = true := by
  cases positive <;> simp [checkBudget]

theorem checkScale_eq_ok_iff {curve : Curve} {x : Float} :
    checkScale curve x = .ok () ↔ isScale x = true := by
  unfold checkScale
  split <;> rename_i h <;> simp [h]

theorem checkSteps_eq_ok_iff {low high : Option UInt64} :
    checkSteps low high = .ok () ↔ ∀ min ∈ low, ∀ max ∈ high, min ≤ max := by
  unfold checkSteps
  split
  · rename_i min max
    split <;> rename_i h
    · simpa using h
    · simpa using h
  · rename_i hneither
    refine iff_of_true rfl fun min hmin max hmax => ?_
    exact absurd hmax (hneither min max hmin)

theorem validate_eq_ok_iff {c : Config} : c.validate = .ok () ↔ c.Usable := by
  simp only [validate, bind_eq_ok_iff, checkBudget_eq_ok_iff, checkSteps_eq_ok_iff,
    checkScale_eq_ok_iff, decide_eq_true_eq]
  constructor
  · rintro ⟨hsamples, hmemory, htime, hsteps, hnoise, hgrowth⟩
    exact ⟨hsamples, hmemory, htime, hsteps, hnoise, hgrowth⟩
  · rintro ⟨hsamples, hmemory, htime, hsteps, hnoise, hgrowth⟩
    exact ⟨hsamples, hmemory, htime, hsteps, hnoise, hgrowth⟩

theorem usable_standard : standard.Usable where
  samples := by decide
  memory := by decide
  time := by decide
  steps := fun _ hmin => nomatch hmin
  noise := by decide
  growth := by decide

end CostAudit.Config
