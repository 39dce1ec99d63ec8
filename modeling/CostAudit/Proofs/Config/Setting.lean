import CostAudit.Config.Setting
import CostAudit.Proofs.Config
import CostAudit.Proofs.Verdict

/-!
# Settings and validation are one rule

What makes a configuration usable is written down twice. `Config.validate`
looks at a whole configuration. `Config.objection` looks at one setting
before it is made, and for a bound on steps at the other bound. Starting from
a usable configuration the two agree (`validate_update`): of the six checks of
the validation a setting touches one at most, and that one fails exactly when
there is an objection, for the same reason (`Refused.invalid`).

So no sequence of settings leads from a preset to a configuration that is not
usable, when those that are refused are left out (`validate_setAll`).
-/

namespace CostAudit

/-- What validation says of the configuration that a refused setting asks
for. -/
def Setting.Refused.invalid (asked : Config) : Setting.Refused → Config.Invalid
  | greatestBelowLeast | leastAboveGreatest =>
    .crossedStepBounds (asked.minMeanSteps.getD 0) (asked.maxMeanSteps.getD 0)
  | emptyBudget b => .emptyBudget b
  | unusableScale .noise => .unusableScale .noise asked.noiseScale
  | unusableScale .growth => .unusableScale .growth asked.growthScale

namespace Config

open Loop (Rig Settings)

/-- The answer of the validation to a change, as it follows from what speaks
against the change. -/
def answer (asked : Config) : Option Setting.Refused → Except Invalid Unit
  | none => .ok ()
  | some refused => .error (refused.invalid asked)

/-! ## One check -/

theorem checkBudget_eq_answer (asked : Config) (b : Budget) {positive : Bool} {empty : Prop}
    [Decidable empty] (h : positive = true ↔ ¬empty) :
    checkBudget b positive = asked.answer (if empty then some (.emptyBudget b) else none) := by
  by_cases hempty : empty
  · rw [if_pos hempty, Bool.eq_false_iff.mpr fun hpos => h.mp hpos hempty]
    rfl
  · rw [if_neg hempty, h.mpr hempty]
    rfl

theorem checkSteps_eq_answer (asked : Config) {low high : Option UInt64}
    {refused : Setting.Refused}
    (h : refused.invalid asked = .crossedStepBounds (low.getD 0) (high.getD 0)) :
    checkSteps low high =
      asked.answer (if low.any fun min => high.any (· < min) then some refused else none) := by
  cases low with
  | none => rfl
  | some min =>
      cases high with
      | none => rfl
      | some max =>
          rw [checkSteps, Option.any_some, Option.any_some]
          by_cases hcrossed : max < min
          · rw [if_pos hcrossed, if_pos (decide_eq_true hcrossed), answer, h]
            rfl
          · rw [if_neg hcrossed, if_neg (by simpa using hcrossed)]
            rfl

theorem checkScale_eq_answer (asked : Config) (curve : Curve) {x : Float}
    (h : (Setting.Refused.unusableScale curve).invalid asked = .unusableScale curve x) :
    checkScale curve x = asked.answer (if isScale x then none else some (.unusableScale curve)) := by
  rw [checkScale]
  split
  · rfl
  · rw [answer, h]

/-! ## One setting -/

/-- A chain of checks in which only one can fail is that check. -/
theorem bind_ok {ε : Type} (check : Except ε Unit) : (check >>= fun _ => .ok ()) = check := by
  cases check <;> rfl

theorem ok_bind {ε : Type} (rest : Unit → Except ε Unit) : (.ok () >>= rest) = rest () := rfl

variable {c : Config}

/-- After one setting a usable configuration is judged by what speaks against
the setting. -/
theorem validate_update (hvalid : c.validate = .ok ()) (s : Setting) :
    (c.update s).validate = (c.update s).answer (c.objection s) := by
  simp only [validate, bind_eq_ok_iff] at hvalid
  obtain ⟨hsamples, hmemory, htime, hsteps, hnoise, hgrowth⟩ := hvalid
  -- Checks that a setting does not touch pass as before; the one it touches is left standing.
  cases s with
  | sampleBudget units =>
      rw [update]
      simp only [validate, hmemory, htime, hsteps, hnoise, hgrowth, bind_ok]
      exact checkBudget_eq_answer _ _ (by simp [UInt64.pos_iff_ne_zero])
  | memoryBudget bytes =>
      rw [update]
      simp only [validate, hsamples, htime, hsteps, hnoise, hgrowth, ok_bind, bind_ok]
      exact checkBudget_eq_answer _ _ (by simp [UInt64.pos_iff_ne_zero])
  | timeBudget budget =>
      rw [update]
      simp only [validate, hsamples, hmemory, hsteps, hnoise, hgrowth, ok_bind, bind_ok]
      exact checkBudget_eq_answer _ _ (by
        rw [decide_eq_true_iff]
        exact Nat.pos_iff_ne_zero)
  | maxMeanSteps steps =>
      rw [update]
      simp only [validate, hsamples, hmemory, htime, hnoise, hgrowth, ok_bind, bind_ok]
      exact checkSteps_eq_answer _ rfl
  | minMeanSteps steps =>
      rw [update]
      simp only [validate, hsamples, hmemory, htime, hnoise, hgrowth, ok_bind, bind_ok]
      exact checkSteps_eq_answer _ rfl
  | noiseScale scale =>
      rw [update]
      simp only [validate, hsamples, hmemory, htime, hsteps, hgrowth, ok_bind, bind_ok]
      exact checkScale_eq_answer _ _ rfl
  | growthScale scale =>
      rw [update]
      simp only [validate, hsamples, hmemory, htime, hsteps, hnoise, ok_bind]
      exact checkScale_eq_answer _ _ rfl
  | require | maxMeanBytes | pinThread | raisePriority =>
      rw [update]
      simp only [validate, hsamples, hmemory, htime, hsteps, hnoise, hgrowth, ok_bind]
      rfl

/-- A setting of a usable configuration is made and leaves it usable, or is
refused for what validation would say. -/
theorem set?_cases (hvalid : c.validate = .ok ()) (s : Setting) :
    (c.set? s = .ok (c.update s) ∧ (c.update s).validate = .ok ()) ∨
      ∃ refused, c.set? s = .error refused ∧
        (c.update s).validate = .error (refused.invalid (c.update s)) := by
  rw [validate_update hvalid, set?]
  cases c.objection s with
  | none => exact Or.inl ⟨rfl, rfl⟩
  | some refused => exact Or.inr ⟨refused, rfl, rfl⟩

/-! ## Many settings -/

def presets : List Config := [standard, quick, thorough]

theorem validate_presets : ∀ c ∈ presets, c.validate = .ok () := by
  have hbudgets {samples memory : UInt64} {time : Duration} (hsamples : 0 < samples)
      (hmemory : 0 < memory) (htime : Duration.zero < time) :
      ({ sampleBudget := samples, memoryBudget := memory, timeBudget := time } : Config).validate =
        .ok () :=
    validate_eq_ok_iff.mpr { usable_standard with
      samples := hsamples, memory := hmemory, time := htime }
  intro c hc
  simp only [presets, List.mem_cons, List.not_mem_nil, or_false] at hc
  rcases hc with rfl | rfl | rfl
  · exact hbudgets (by decide) (by decide) (by decide)
  · exact hbudgets (by decide) (by decide) (by decide)
  · exact hbudgets (by decide) (by decide) (by decide)

/-- The configuration with one setting changed, or as it was when the setting
is refused. -/
def setOrKeep (c : Config) (s : Setting) : Config := (c.set? s).toOption.getD c

/-- The configuration after some settings, without those that are refused. -/
def setAll (c : Config) (ss : List Setting) : Config := ss.foldl setOrKeep c

theorem validate_setOrKeep (hvalid : c.validate = .ok ()) (s : Setting) :
    (c.setOrKeep s).validate = .ok () := by
  rcases set?_cases hvalid s with ⟨hset, hupdate⟩ | ⟨refused, hset, -⟩
  · rw [setOrKeep, hset]
    exact hupdate
  · rw [setOrKeep, hset]
    exact hvalid

theorem validate_setAll (hvalid : c.validate = .ok ()) (ss : List Setting) :
    (c.setAll ss).validate = .ok () := by
  induction ss generalizing c with
  | nil => exact hvalid
  | cons s ss ih => exact ih (validate_setOrKeep hvalid s)

/-- An audit goes on to a run and concludes from it. -/
def Accepted (c : Config) : Prop :=
  ∀ {W σ : Type} [Sink σ] (rig : Rig W σ) (sink : σ) (w : W),
    ∃ r, Loop.run rig (Settings.ofConfig c) (c.warned rig sink w) (rig.active w).2 = .ok r ∧
      c.audit rig sink w = .ok (c.conclude (rig.active w).1 r)

/-- **Settings and validation are one rule.** Every preset is usable. A
setting of a usable configuration is refused exactly when validation rejects
the configuration with only that setting changed, and then for the same
reason; any other setting yields that configuration. So what settings in any
order make of a preset, without those refused, is usable and is audited. -/
theorem set?_refuses_iff_unusable :
    (∀ c ∈ presets, c.validate = .ok ()) ∧
    (∀ (c : Config) (s : Setting), c.validate = .ok () →
      ((∃ refused, c.set? s = .error refused) ↔ ∃ e, (c.update s).validate = .error e) ∧
      (¬(∃ refused, c.set? s = .error refused) → c.set? s = .ok (c.update s)) ∧
      ∀ refused, c.set? s = .error refused →
        (c.update s).validate = .error (refused.invalid (c.update s))) ∧
    ∀ c ∈ presets, ∀ ss, (c.setAll ss).validate = .ok () ∧ (c.setAll ss).Accepted := by
  refine ⟨validate_presets, fun c s hvalid => ?_, fun c hc ss => ?_⟩
  · rcases set?_cases hvalid s with ⟨hset, hupdate⟩ | ⟨refused, hset, hupdate⟩
    · rw [hset, hupdate]
      refine ⟨iff_of_false ?_ ?_, fun _ => rfl, fun _ h => nomatch h⟩
      · exact fun ⟨_, h⟩ => nomatch h
      · exact fun ⟨_, h⟩ => nomatch h
    · rw [hset, hupdate]
      refine ⟨iff_of_true ⟨_, rfl⟩ ⟨_, rfl⟩, fun h => absurd ⟨_, rfl⟩ h, fun _ h => ?_⟩
      rw [Except.error.inj h]
  · have hvalid := validate_setAll (validate_presets c hc) ss
    exact ⟨hvalid, fun rig sink w => exists_audit_eq_conclude _ rig sink w hvalid⟩

/-- Settings of which the second, the third and the last are refused: a bound
below the other one, a multiplier that is no number, and an empty budget. -/
def crossing : List Setting :=
  [.minMeanSteps 5, .maxMeanSteps 3, .noiseScale (0.0 / 0.0), .maxMeanSteps 5, .sampleBudget 0]

theorem usable_after_crossing :
    quick.validate = .ok () ∧ quick ∈ presets ∧
      (∃ refused, (quick.update (.minMeanSteps 5)).set? (.maxMeanSteps 3) = .error refused) ∧
      (quick.setAll crossing).validate = .ok () ∧
      (quick.setAll crossing).minMeanSteps = some 5 ∧
      (quick.setAll crossing).maxMeanSteps = some 5 ∧
      (quick.setAll crossing).sampleBudget = 10000 := by
  obtain ⟨hpresets, hone, hmany⟩ := set?_refuses_iff_unusable
  have hquick : quick ∈ presets := by simp [presets]
  have hlow : (quick.update (.minMeanSteps 5)).validate = .ok () := by
    rw [validate_update (hpresets quick hquick)]
    rfl
  have hcrossed : ((quick.update (.minMeanSteps 5)).update (.maxMeanSteps 3)).validate =
      .error (.crossedStepBounds 5 3) := by
    rw [validate_update hlow]
    rfl
  refine ⟨hpresets quick hquick, hquick, (hone _ _ hlow).1.mpr ⟨_, hcrossed⟩,
    (hmany quick hquick crossing).1, ?_, ?_, ?_⟩ <;> decide +kernel

end Config

end CostAudit
