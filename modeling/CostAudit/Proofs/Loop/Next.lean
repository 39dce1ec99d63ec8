import CostAudit.Loop.Settings
import Mathlib.Algebra.Order.Ring.Nat

/-!
# Deciding on the next size

The three caps on the next size enter only as words, whatever number the
memory and the time cap came from. Above one, the next size respects the
doubling and the sample budget (`nextSize_le`), and where the last size
passes all three caps it is at least the last size (`le_nextSize`). So a
next size below the last one is always some budget's doing, and the decision
is one of the six of `Decides`, never a fault (`decides_next`).
-/

namespace CostAudit.Loop

open Settings

section

variable {α : Type} [Scalar α] {cfg : Settings α} {s : Series} {elapsed : Duration}
variable {prev : Sample}

theorem toNat_cutTo_le (size : UInt64) (cap : Option UInt64) :
    (cutTo size cap).toNat ≤ size.toNat := by
  cases cap with
  | none => exact Nat.le_refl _
  | some c =>
      rw [cutTo, Option.elim_some, toNat_min]
      exact Nat.min_le_left _ _

theorem toNat_cutTo_le_cap (size : UInt64) {cap : Option UInt64} :
    ∀ c ∈ cap, (cutTo size cap).toNat ≤ c.toNat := by
  rintro c rfl
  rw [cutTo, Option.elim_some, toNat_min]
  exact Nat.min_le_right _ _

theorem le_cutTo {low size : UInt64} {cap : Option UInt64} (hsize : low ≤ size)
    (hcap : ¬cap.any (· < low) = true) : low ≤ cutTo size cap := by
  cases cap with
  | none => exact hsize
  | some c =>
      rw [Option.any_some, decide_eq_true_eq, UInt64.not_lt] at hcap
      rw [UInt64.le_iff_toNat_le] at hsize hcap ⊢
      rw [cutTo, Option.elim_some, toNat_min]
      exact Nat.le_min.mpr ⟨hsize, hcap⟩

/-- Above one, the next size respects the doubling and what is left of the
sample budget. -/
theorem nextSize_le (h : 1 < cfg.nextSize s elapsed prev) :
    (cfg.nextSize s elapsed prev).toNat ≤ 2 * prev.size.toNat ∧
      (cfg.nextSize s elapsed prev).toNat ≤ cfg.sampleBudget.toNat - s.units.toNat := by
  have hdoubled : (min (satAdd prev.size prev.size) (cfg.samplesLeft s)).toNat ≤
      min (2 * prev.size.toNat) (cfg.sampleBudget.toNat - s.units.toNat) := by
    rw [toNat_min, toNat_satAdd, samplesLeft, toNat_satSub]
    omega
  have hmemory := toNat_cutTo_le (min (satAdd prev.size prev.size) (cfg.samplesLeft s))
    (cfg.sizeForMemory? s prev)
  have htime := toNat_cutTo_le
    (cutTo (min (satAdd prev.size prev.size) (cfg.samplesLeft s)) (cfg.sizeForMemory? s prev))
    (cfg.sizeForTime? elapsed prev)
  have h1 : (1 : UInt64).toNat = 1 := rfl
  rw [UInt64.lt_iff_toNat_lt, nextSize, toNat_max] at h
  rw [nextSize, toNat_max]
  omega

/-- Above one, the next size respects the memory and the time cap. -/
theorem nextSize_le_caps (h : 1 < cfg.nextSize s elapsed prev) :
    (∀ c ∈ cfg.sizeForMemory? s prev, (cfg.nextSize s elapsed prev).toNat ≤ c.toNat) ∧
      ∀ c ∈ cfg.sizeForTime? elapsed prev, (cfg.nextSize s elapsed prev).toNat ≤ c.toNat := by
  have hcut := toNat_cutTo_le
    (cutTo (min (satAdd prev.size prev.size) (cfg.samplesLeft s)) (cfg.sizeForMemory? s prev))
    (cfg.sizeForTime? elapsed prev)
  have h1 : (1 : UInt64).toNat = 1 := rfl
  rw [UInt64.lt_iff_toNat_lt, nextSize, toNat_max] at h
  refine ⟨fun c hc => ?_, fun c hc => ?_⟩
  · have hmemory := toNat_cutTo_le_cap (min (satAdd prev.size prev.size) (cfg.samplesLeft s)) c hc
    rw [nextSize, toNat_max]
    omega
  · have htime := toNat_cutTo_le_cap (cutTo (min (satAdd prev.size prev.size) (cfg.samplesLeft s))
      (cfg.sizeForMemory? s prev)) c hc
    rw [nextSize, toNat_max]
    omega

/-- Where no cap is below the last size, the next size is not below it. -/
theorem le_nextSize (hsamples : ¬cfg.samplesLeft s < prev.size)
    (hmemory : ¬(cfg.sizeForMemory? s prev).any (· < prev.size) = true)
    (htime : ¬(cfg.sizeForTime? elapsed prev).any (· < prev.size) = true) :
    prev.size ≤ cfg.nextSize s elapsed prev := by
  have hdoubled : prev.size ≤ min (satAdd prev.size prev.size) (cfg.samplesLeft s) := by
    have hlt := prev.size.toNat_lt
    rw [UInt64.not_lt, UInt64.le_iff_toNat_le] at hsamples
    rw [UInt64.le_iff_toNat_le, toNat_min, toNat_satAdd]
    omega
  have hcut := le_cutTo (le_cutTo hdoubled hmemory) htime
  rw [UInt64.le_iff_toNat_le] at hcut ⊢
  rw [nextSize, toNat_max]
  exact Nat.le_trans hcut (Nat.le_max_left _ _)

/-- When the next size falls below the last one, a budget is to blame. -/
theorem exists_shortBudget_eq_ok (h : cfg.nextSize s elapsed prev < prev.size) :
    ∃ budget, cfg.shortBudget s elapsed prev = .ok budget := by
  unfold shortBudget
  split
  · exact ⟨_, rfl⟩
  · rename_i hsamples
    split
    · exact ⟨_, rfl⟩
    · rename_i hmemory
      split
      · exact ⟨_, rfl⟩
      · rename_i htime
        exact absurd h (UInt64.not_lt.mpr (le_nextSize hsamples hmemory htime))

/-- No budget is used up. -/
structure Settings.Affords (cfg : Settings α) (s : Series) (elapsed : Duration) : Prop where
  units : s.units < cfg.sampleBudget
  measured : s.measured < cfg.memoryBudget
  time : ¬cfg.timeBudget ≤ elapsed

/-- What the loop decides after a series, some time after the start, and
why. -/
inductive Decides (cfg : Settings α) (s : Series) (elapsed : Duration) :
    Except Fault Next → Prop
  | samplesSpent (h : cfg.sampleBudget ≤ s.units) : Decides cfg s elapsed (.ok (.stop .samples))
  | memorySpent (hunits : s.units < cfg.sampleBudget) (h : cfg.memoryBudget ≤ s.measured) :
      Decides cfg s elapsed (.ok (.stop .memory))
  | timeSpent (hunits : s.units < cfg.sampleBudget) (hmeasured : s.measured < cfg.memoryBudget)
      (h : cfg.timeBudget ≤ elapsed) : Decides cfg s elapsed (.ok (.stop .time))
  | first (haffords : cfg.Affords s elapsed) (hlast : s.last? = none) :
      Decides cfg s elapsed (.ok (.call 1))
  | short {prev : Sample} {budget : Budget} (haffords : cfg.Affords s elapsed)
      (hlast : s.last? = some prev) (hless : cfg.nextSize s elapsed prev < prev.size)
      (hshort : cfg.shortBudget s elapsed prev = .ok budget) :
      Decides cfg s elapsed (.ok (.stop budget))
  | further {prev : Sample} (haffords : cfg.Affords s elapsed) (hlast : s.last? = some prev)
      (hle : prev.size ≤ cfg.nextSize s elapsed prev) :
      Decides cfg s elapsed (.ok (.call (cfg.nextSize s elapsed prev)))

theorem decides_next (cfg : Settings α) (s : Series) (elapsed : Duration) :
    Decides cfg s elapsed (cfg.next s elapsed) := by
  unfold Settings.next
  split
  · rename_i hunits
    exact .samplesSpent hunits
  · rename_i hunits
    rw [UInt64.not_le] at hunits
    split
    · rename_i hmeasured
      exact .memorySpent hunits hmeasured
    · rename_i hmeasured
      rw [UInt64.not_le] at hmeasured
      split
      · rename_i htime
        exact .timeSpent hunits hmeasured htime
      · rename_i htime
        split
        · rename_i hlast
          exact .first ⟨hunits, hmeasured, htime⟩ hlast
        · rename_i prev hlast
          simp only
          split
          · rename_i hless
            obtain ⟨budget, hshort⟩ := exists_shortBudget_eq_ok hless
            rw [hshort]
            exact .short ⟨hunits, hmeasured, htime⟩ hlast hless hshort
          · rename_i hle
            exact .further ⟨hunits, hmeasured, htime⟩ hlast (UInt64.not_lt.mp hle)

/-- A pass is started only while every budget leaves room. -/
theorem affords_of_next_call {size : UInt64} (h : cfg.next s elapsed = .ok (.call size)) :
    cfg.Affords s elapsed := by
  have hdecides := decides_next cfg s elapsed
  rw [h] at hdecides
  cases hdecides with
  | first haffords => exact haffords
  | further haffords => exact haffords

theorem next_ne_error (fault : Fault) : cfg.next s elapsed ≠ .error fault := by
  intro h
  have hdecides := decides_next cfg s elapsed
  rw [h] at hdecides
  cases hdecides

end

end CostAudit.Loop
