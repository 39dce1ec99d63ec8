import CostAudit.Proofs.Loop.Next
import CostAudit.Proofs.Loop.Turns
import Mathlib.Algebra.Order.BigOperators.Group.List
import Mathlib.Data.List.Chain

/-!
# The sizes of a run

A run starts at size one, never lowers the size, at most doubles it, and
never asks for more than is left of the sample budget.

`Series.Fits` is the invariant of the series at every head of the loop, and
`Series.Allows` is what holds of a size while its pass is under way. They
rest on each other: a series that fits the budget allows every size the
loop decides on (`allows_of_next_call`), and with a sample of an allowed
size it still fits (`Series.Fits.append`). Neither fault can therefore
arise, so every run ends with a record (`exists_run_eq_ok`).
-/

namespace CostAudit

/-- The sizes of a series fit a sample budget. -/
structure Series.Fits (budget : UInt64) (s : Series) : Prop where
  first : ∀ size ∈ s.sizes.head?, size = 1
  pos : ∀ size ∈ s.sizes, 1 ≤ size
  chain : s.sizes.IsChain fun a b => a ≤ b ∧ b.toNat ≤ 2 * a.toNat
  units : s.units.toNat = (s.sizes.map UInt64.toNat).sum
  within : s.units ≤ budget

/-- A series and its sample budget leave room for a sample of some size. -/
structure Series.Allows (budget : UInt64) (s : Series) (size : UInt64) : Prop where
  first : s.sizes = [] → size = 1
  pos : 1 ≤ size
  after : ∀ prev ∈ s.sizes.getLast?, prev ≤ size ∧ size.toNat ≤ 2 * prev.toNat
  within : s.units.toNat + size.toNat ≤ budget.toNat

theorem Series.last?_map_size (s : Series) : s.last?.map Sample.size = s.sizes.getLast? := by
  rw [last?, sizes, List.getLast?_map, Array.getLast?_toList]

theorem Series.size_mem_sizes (s : Series) {x : Sample} (h : x ∈ s.samples) : x.size ∈ s.sizes :=
  List.mem_map_of_mem (Array.mem_toList_iff.mpr h)

theorem Series.sizes_append (s : Series) (x : Sample) :
    (s.append x).sizes = s.sizes ++ [x.size] := by
  unfold sizes append
  simp

theorem Series.units_append (s : Series) (x : Sample) :
    (s.append x).units = satAdd s.units x.size := rfl

theorem Series.fits_empty (budget : UInt64) : Series.Fits budget {} := by
  refine ⟨?_, ?_, .nil, rfl, UInt64.zero_le⟩
  · intro size h
    cases h
  · intro size h
    cases h

/-- Every sample adds to the units, so a series without units is empty. -/
theorem Series.Fits.samples_eq_nil {budget : UInt64} {s : Series} (hfits : s.Fits budget)
    (hunits : s.units = 0) : s.samples.toList = [] := by
  have hsum := hfits.units
  cases hsamples : s.samples.toList with
  | nil => rfl
  | cons x xs =>
      have hsizes : s.sizes = x.size :: xs.map Sample.size := by rw [sizes, hsamples]; rfl
      have hpos := hfits.pos x.size (by rw [hsizes]; exact List.mem_cons_self ..)
      have h1 : (1 : UInt64).toNat = 1 := rfl
      have h0 : (0 : UInt64).toNat = 0 := rfl
      rw [UInt64.le_iff_toNat_le] at hpos
      rw [hunits, hsizes, List.map_cons, List.sum_cons] at hsum
      omega

/-- There are at most as many samples as units. -/
theorem Series.Fits.size_le_units {budget : UInt64} {s : Series} (h : s.Fits budget) :
    s.samples.size ≤ s.units.toNat := by
  have hpos : ∀ n ∈ s.sizes.map UInt64.toNat, 1 ≤ n := by
    intro n hn
    obtain ⟨size, hsize, rfl⟩ := List.mem_map.mp hn
    exact UInt64.le_iff_toNat_le.mp (h.pos size hsize)
  have hsum := List.length_le_sum_of_one_le _ hpos
  rwa [List.length_map, Series.sizes, List.length_map, Array.length_toList, ← Series.sizes,
    ← h.units] at hsum

theorem Series.Fits.append {budget : UInt64} {s : Series} {x : Sample} (hfits : s.Fits budget)
    (hallows : s.Allows budget x.size) : (s.append x).Fits budget := by
  have hunits : (s.append x).units.toNat = s.units.toNat + x.size.toNat := by
    have hle := hallows.within
    have hlt := budget.toNat_lt
    rw [units_append, toNat_satAdd]
    omega
  refine ⟨?_, ?_, ?_, ?_, ?_⟩
  · rw [sizes_append]
    cases hsizes : s.sizes with
    | nil =>
        intro size hsize
        rw [← Option.some.inj hsize]
        exact hallows.first hsizes
    | cons n ns =>
        intro size hsize
        exact hfits.first size (hsizes ▸ hsize)
  · intro size hsize
    rw [sizes_append, List.mem_append, List.mem_singleton] at hsize
    rcases hsize with hsize | rfl
    · exact hfits.pos size hsize
    · exact hallows.pos
  · rw [sizes_append, List.isChain_append]
    refine ⟨hfits.chain, .singleton _, fun prev hprev next hnext => ?_⟩
    rw [← Option.some.inj hnext]
    exact hallows.after prev hprev
  · rw [hunits, hfits.units, sizes_append]
    simp
  · rw [UInt64.le_iff_toNat_le, hunits]
    exact hallows.within

/-- A sample of an allowed size is not refused. -/
theorem Series.Allows.admits {budget : UInt64} {s : Series} {x : Sample}
    (hallows : s.Allows budget x.size) : s.admits x = true := by
  have hlast := s.last?_map_size
  unfold Series.admits
  cases hprev : s.last? with
  | none => rfl
  | some prev =>
      rw [hprev] at hlast
      exact decide_eq_true (hallows.after prev.size hlast.symm).1

namespace Loop

/-! ## The size of a call -/

section

variable {α : Type} [Scalar α] {cfg : Settings α} {s : Series} {elapsed : Duration}

/-- The decision to call keeps the size within its bounds. -/
theorem allows_of_next_call {size : UInt64} (hfits : s.Fits cfg.sampleBudget)
    (h : cfg.next s elapsed = .ok (.call size)) : s.Allows cfg.sampleBudget size := by
  obtain ⟨hunits, hpos⟩ := units_lt_of_next_call h
  have hdecides := decides_next cfg s elapsed
  have hlast := s.last?_map_size
  rw [UInt64.lt_iff_toNat_lt] at hunits
  rw [h] at hdecides
  cases hdecides with
  | first _ hnone =>
      rw [hnone, Option.map_none] at hlast
      refine ⟨fun _ => rfl, hpos, fun last hmem => ?_, hunits⟩
      rw [← hlast] at hmem
      cases hmem
  | @further prev _ hsome hle =>
      rw [hsome, Option.map_some] at hlast
      have hprev : 1 ≤ prev.size := hfits.pos _ (List.mem_of_getLast? hlast.symm)
      have hbounds : (cfg.nextSize s elapsed prev).toNat ≤ 2 * prev.size.toNat ∧
          (cfg.nextSize s elapsed prev).toNat ≤ cfg.sampleBudget.toNat - s.units.toNat := by
        rw [UInt64.le_iff_toNat_le] at hpos hprev
        have h1 : (1 : UInt64).toNat = 1 := rfl
        by_cases hone : 1 < cfg.nextSize s elapsed prev
        · exact nextSize_le hone
        · -- the floor of one is always affordable: the budget is not used up
          rw [UInt64.not_lt, UInt64.le_iff_toNat_le] at hone
          omega
      refine ⟨fun hnil => ?_, hpos, fun last hmem => ?_, by omega⟩
      · rw [hnil] at hlast
        cases hlast
      · rw [← hlast] at hmem
        cases hmem
        exact ⟨hle, hbounds.1⟩

end

/-! ## Every head of the loop -/

section

variable {W σ α : Type} [Sink σ] [Scalar α] [Logarithm α] {rig : Rig W σ} {cfg : Settings α}
variable {sink : σ} {w : W}

theorem fits_of_visits {s : State W σ} (h : Visits rig cfg sink w s) :
    s.series.Fits cfg.sampleBudget := by
  refine h.induction (motive := fun s => s.series.Fits cfg.sampleBudget)
    (Series.fits_empty _) ?_
  intro t u hturn hfits
  cases hturn with
  | pass hstarts hsample hadmits =>
      have hallows := allows_of_next_call hfits hstarts.next
      rw [← takePass_sample_size hsample] at hallows
      exact hfits.append hallows

/-- After the first head of the loop there is a sample. -/
theorem samples_pos_of_visits {s : State W σ} (h : Visits rig cfg sink w s) :
    s = startState rig sink w ∨ 0 < s.series.samples.size := by
  cases Relation.ReflTransGen.cases_tail h with
  | inl hstart => exact Or.inl hstart
  | inr hturn =>
      obtain ⟨t, -, hturn⟩ := hturn
      cases hturn with
      | pass => exact Or.inr (by simp [Taken.settled, Series.append])

/-- A state at the head of a run's loop never ends it with a fault. -/
theorem leaves_ne_error {s : State W σ} (hvisits : Visits rig cfg sink w s) (fault : Fault) :
    ¬Leaves rig cfg (startTime rig w) (startActive rig w) s (.error fault) := by
  intro hleaves
  cases hleaves with
  | undecided _ hnext => exact next_ne_error fault hnext
  | refused hstarts hsample hadmits =>
      have hallows := allows_of_next_call (fits_of_visits hvisits) hstarts.next
      rw [← takePass_sample_size hsample] at hallows
      rw [hallows.admits] at hadmits
      cases hadmits

variable (rig cfg sink w) in
/-- Every run ends with a record: no fault arises. -/
theorem exists_run_eq_ok : ∃ r, run rig cfg sink w = .ok r := by
  obtain ⟨s, hturns, hleaves⟩ := exists_turns_leaves_iterate rig cfg (startTime rig w)
    (startActive rig w) (startState rig sink w)
  rw [run_eq]
  cases hanswer : iterate rig cfg (startTime rig w) (startActive rig w) (startState rig sink w)
  with
  | error fault => exact absurd (hanswer ▸ hleaves) (leaves_ne_error hturns fault)
  | ok p => exact ⟨_, rfl⟩

theorem fits_of_run {r : Run W σ} (h : run rig cfg sink w = .ok r) :
    r.state.series.Fits cfg.sampleBudget := by
  obtain ⟨s, ending, final, hvisits, hleaves, rfl⟩ := exists_visits_of_run h
  have hseries : (final.ticked rig).series = s.series := hleaves.series_eq
  exact hseries ▸ fits_of_visits hvisits

variable (rig cfg sink w) in
/-- **Sizes and the sample budget.** At every head of the loop the sizes
start at one, never decrease and at most double, and their exact sum is the
running sum and fits the budget. A call under way is of a size that the
series and the budget allow, so its sample is never refused; and the run
ends, with a series that still fits. -/
theorem sizes_fit_sampleBudget :
    (∀ s, Visits rig cfg sink w s → s.series.Fits cfg.sampleBudget ∧
      ∀ size, Starts rig cfg (startTime rig w) s size →
        s.series.Allows cfg.sampleBudget size ∧
        ∀ t, t = passFrom rig cfg (startTime rig w) (startActive rig w) size s →
          (∀ c ∈ t.pass.calls, c.size = size) ∧
          ∀ x ∈ t.sample?, s.series.admits x = true) ∧
    ∃ r, run rig cfg sink w = .ok r ∧ r.state.series.Fits cfg.sampleBudget := by
  refine ⟨fun s hvisits => ⟨fits_of_visits hvisits, fun size hstarts => ?_⟩, ?_⟩
  · have hallows := allows_of_next_call (fits_of_visits hvisits) hstarts.next
    refine ⟨hallows, ?_⟩
    rintro t rfl
    refine ⟨fun c hc => (passEnds_takePass ..).size_of_mem_calls hc, fun x hx => ?_⟩
    rw [← takePass_sample_size hx] at hallows
    exact hallows.admits
  · obtain ⟨r, hr⟩ := exists_run_eq_ok rig cfg sink w
    exact ⟨r, hr, fits_of_run hr⟩

end

end Loop

end CostAudit
