import CostAudit.Audit
import CostAudit.Proofs.Loop.Accounts
import CostAudit.Proofs.Retention.Own
import CostAudit.Proofs.Verification

/-!
# What the overhead hides

The net measured bytes of a run are meant to be the bytes that the workload
itself left live. They are fewer by the blocks that growths of the list
replaced: the readings of the probe no longer contain such a block, while
the overhead that is taken out of them charges its successor in full.

A kept call is read as the live bytes that the kept values added
(`Retained.gain`), the blocks that were replaced (`Retained.replaced`) and
what is left of the difference of its readings (`Retained.left`).
-/

namespace CostAudit.Loop

/-- The list as the call found it. -/
def Retained.list (k : Retained) : Retention := { capacity := k.room }

/-- The live bytes that the kept values added. -/
def Retained.gain (k : Retained) : Nat := k.list.gain k.call.reply.kept

/-- The bytes of the blocks that the list's growths replaced. -/
def Retained.replaced (k : Retained) : Nat := k.list.replacedBytes k.call.reply.kept

/-- The live bytes that the call left beyond those of the kept values. -/
def Retained.left (k : Retained) : Nat :=
  k.call.after.toNat - k.call.before.toNat - k.gain

/-- No block from before the call was freed during it: the readings rise at
least by what the kept values added. -/
def Retained.FreesNothingOld (k : Retained) : Prop :=
  k.call.before.toNat + k.gain ≤ k.call.after.toNat

/-- The call was made on a counting heap: its readings are the live bytes of
a shelf before and after the events of the call, and the routine resized and
released only blocks that it made during the call. -/
structure Retained.OnHeap (k : Retained) (s : Shelf) (es : List Shelf.Event) : Prop where
  sound : s.Sound
  empty : s.retention.length = 0
  room : s.retention.capacity = k.room
  before : k.call.before = s.heap.live
  after : k.call.after = (s.run es).heap.live
  kept : Shelf.kept es = k.call.reply.kept
  own : s.OwnOnly [] es
  live : s.heap.freed ≤ s.heap.allocated
  /-- The counter does not wrap around. -/
  counter : s.heap.allocated.toNat + (s.ownHanded es +
    (s.retention.gain (Shelf.kept es) + s.retention.replacedBytes (Shelf.kept es))) < 2 ^ 64

/-- On a counting heap a call leaves the blocks that the routine made. -/
theorem Retained.OnHeap.left_eq {k : Retained} {s : Shelf} {es : List Shelf.Event}
    (h : k.OnHeap s es) :
    k.FreesNothingOld ∧ k.left = (s.run es).heap.bytesAt (s.given [] es) := by
  have hlive := Shelf.live_run_own h.sound h.own h.live h.counter
  have hgain : s.retention.gain (Shelf.kept es) = k.gain := by
    rw [gain, Retention.gain_eq, Retention.gain_eq, Retention.replacedBytes,
      Retention.replacedBytes, h.empty, h.room, h.kept]
    rfl
  rw [hgain, ← h.before, ← h.after] at hlive
  unfold FreesNothingOld left
  omega

theorem Retained.charge_eq (k : Retained) : k.charge = k.gain + k.replaced := by
  have hlive := k.list.liveBytes_keepAll k.call.reply.kept
  have hle := k.list.liveBytes_le_keepAll k.call.reply.kept
  have hcharge : k.charge = Retention.bytes k.call.reply.kept + Retention.slotBytes *
    Retention.newPlaces (Retention.enlargements k.list.length k.list.capacity
      k.call.reply.kept.length) := rfl
  rw [hcharge, gain, replaced, Retention.gain]
  omega

theorem Retained.measured_eq {k : Retained} (h : k.FreesNothingOld) :
    (k.call.measured true).toNat = k.left + k.gain := by
  rw [Call.measured, if_pos rfl, toNat_satSub, left]
  unfold FreesNothingOld at h
  omega

theorem sum_charge (ks : List Retained) :
    (ks.map Retained.charge).sum =
      (ks.map Retained.gain).sum + (ks.map Retained.replaced).sum := by
  induction ks with
  | nil => rfl
  | cons k ks ih =>
      simp only [List.map_cons, List.sum_cons, ih, k.charge_eq]
      omega

theorem sum_measured {ks : List Retained} (h : ∀ k ∈ ks, k.FreesNothingOld) :
    (ks.map fun k => (k.call.measured true).toNat).sum =
      (ks.map Retained.left).sum + (ks.map Retained.gain).sum := by
  induction ks with
  | nil => rfl
  | cons k ks ih =>
      have hk := Retained.measured_eq (h k (List.mem_cons_self ..))
      simp only [List.map_cons, List.sum_cons, hk,
        ih fun j hj => h j (List.mem_cons_of_mem _ hj)]
      omega

/-! ## Whole runs -/

section

variable {W σ : Type}

/-- The live bytes that the kept calls of a run left. -/
def Run.left (r : Run W σ) : Nat := (r.state.retained.map Retained.left).sum

/-- The live bytes that the values kept in them added. -/
def Run.gain (r : Run W σ) : Nat := (r.state.retained.map Retained.gain).sum

/-- The bytes of the blocks that were replaced in them. -/
def Run.replaced (r : Run W σ) : Nat := (r.state.retained.map Retained.replaced).sum

theorem netMeasured_eq {r : Run W σ} (h : r.state.Balanced r.probeActive)
    (hactive : r.probeActive = true) (hfrees : ∀ k ∈ r.state.retained, k.FreesNothingOld) :
    r.netMeasured.toNat =
      min (r.left + r.gain) (2 ^ 64 - 1) - min (r.gain + r.replaced) (2 ^ 64 - 1) := by
  rw [netMeasured_of_balanced h, hactive, sum_measured hfrees, sum_charge]
  rfl

/-- A run of no units has measured nothing. -/
theorem netMeasured_of_units_eq_zero {r : Run W σ} {budget : UInt64}
    (h : r.state.Balanced r.probeActive) (hfits : r.state.series.Fits budget)
    (hunits : r.state.series.units = 0) : r.netMeasured.toNat = 0 := by
  rw [Run.netMeasured, toNat_satSub, h.measured, hfits.samples_eq_nil hunits]
  exact Nat.zero_sub _

/-- What a verification of the run says on the honesty of declared bytes. -/
theorem measuredAboveDeclared_mem_verify {r : Run W σ} {budget : UInt64}
    (h : r.state.Balanced r.probeActive) (hfits : r.state.series.Fits budget)
    (hactive : r.probeActive = true) {c : Config} (hmemSafe : c.required.has .memSafe = true)
    (growth : Bool) {τ : Type} [Sink τ] (sink : τ) :
    .measuredAboveDeclared r.netMeasured r.state.ledger.bytes ∈
        (c.verify r.totals growth sink).1.failures ↔
      r.state.ledger.bytes.toNat < r.netMeasured.toNat ∧
        r.state.series.units.toNat ≤
          2 * (r.netMeasured.toNat - r.state.ledger.bytes.toNat) := by
  have htotals : r.totals.underdeclared = true ↔
      r.state.ledger.bytes.toNat < r.netMeasured.toNat ∧
        r.state.series.units.toNat ≤
          (r.netMeasured.toNat - r.state.ledger.bytes.toNat) * 2 := by
    rw [Totals.underdeclared, Bool.and_eq_true, decide_eq_true_eq, decide_eq_true_eq,
      UInt64.lt_iff_toNat_lt]
    exact Iff.rfl
  rw [mem_failures_verify, measuredAboveDeclared_mem_judge, htotals]
  constructor
  · rintro ⟨-, ⟨-, -, hlt, hunits⟩, -⟩
    omega
  · rintro ⟨hlt, hunits⟩
    refine ⟨fun hzero => ?_, ⟨hmemSafe, hactive, hlt, by omega⟩, rfl, rfl⟩
    have hnet := netMeasured_of_units_eq_zero h hfits hzero
    omega

/-- **What the overhead hides.** The overhead of any calls is the live bytes
that the kept values added between the readings, and the blocks that were
replaced. On a counting heap the rest of the difference of the readings is
what the blocks of the routine's own making hold after the call. So the net
measured bytes of a run are what its kept calls left, without the blocks
replaced in them, and declared bytes are found too low exactly when the net
measured ones exceed them by half a byte per unit. -/
theorem overhead_hides_replaced :
    (∀ calls : List (List UInt64),
      (({} : Retention).releaseAll calls).overhead.toNat =
        min (Retention.sumOver Retention.gain {} calls +
          Retention.sumOver Retention.replacedBytes {} calls) (2 ^ 64 - 1)) ∧
    (∀ (k : Retained) (s : Shelf) (es : List Shelf.Event), k.OnHeap s es →
      k.FreesNothingOld ∧ k.left = (s.run es).heap.bytesAt (s.given [] es)) ∧
    ∀ {W σ α : Type} [Sink σ] [Scalar α] [Logarithm α] (rig : Rig W σ) (cfg : Settings α)
      (sink : σ) (w : W) (r : Run W σ), run rig cfg sink w = .ok r → r.wasAborted = false →
      r.probeActive = true → (∀ k ∈ r.state.retained, k.FreesNothingOld) →
      r.netMeasured.toNat =
          min (r.left + r.gain) (2 ^ 64 - 1) - min (r.gain + r.replaced) (2 ^ 64 - 1) ∧
        (r.left + r.gain < 2 ^ 64 → r.netMeasured.toNat = r.left - r.replaced) ∧
        ∀ (c : Config) (growth : Bool) (last : σ), c.required.has .memSafe = true →
          (.measuredAboveDeclared r.netMeasured r.state.ledger.bytes ∈
              (c.verify r.totals growth last).1.failures ↔
            r.state.ledger.bytes.toNat < r.netMeasured.toNat ∧
              r.state.series.units.toNat ≤
                2 * (r.netMeasured.toNat - r.state.ledger.bytes.toNat)) := by
  refine ⟨fun calls => ?_, fun k s es h => h.left_eq, ?_⟩
  · have hcalls := Retention.overhead_releaseAll calls {}
    rwa [show ({} : Retention).overhead.toNat = 0 from rfl, Nat.zero_add] at hcalls
  · intro W σ α _ _ _ rig cfg sink w r h hcompleted hactive hfrees
    have hbalanced := balanced_of_completed h hcompleted
    have hnet := netMeasured_eq hbalanced hactive hfrees
    refine ⟨hnet, fun hcounter => ?_, fun c growth last hmemSafe => ?_⟩
    · rw [hnet]
      omega
    · exact measuredAboveDeclared_mem_verify hbalanced (fits_of_run h) hactive hmemSafe growth last

end

/-! A single call keeps five values of no size: the list grows to four
places and then to eight, and the first block is replaced. -/

section

attribute [local instance] binaryLogarithm

def singleCall : Settings Rat where
  sampleBudget := 1
  memoryBudget := 1000000
  timeBudget := .ofNanos 1000000
  mode := .precise
  noiseScale := 1

/-- A tape of the call, with a reading of the probe after it. -/
def keepsFive (after : UInt64) : Tape where
  clock := []
  probe := [0, after]
  replies := [{ actions := [.keep 0, .keep 0, .keep 0, .keep 0, .keep 0] }]

/-- The events of the call on a heap, next to a block that the routine makes
and resizes. -/
def keepsFiveEvents : List Shelf.Event :=
  [.own true (.allocate 72 false), .keep 0, .own true (.resize 0 200), .keep 0, .keep 0, .keep 0,
    .keep 0]

theorem netMeasured_keepsFive :
    ∃ r : Run Tape Transcript, run Tape.rig singleCall {} (keepsFive 328) = .ok r ∧
      (∀ k ∈ r.state.retained, k.OnHeap ⟨{}, {}, none⟩ keepsFiveEvents) ∧
      r.left = 200 ∧ r.replaced = 64 ∧ r.netMeasured.toNat = 200 - 64 ∧
      .measuredAboveDeclared r.netMeasured r.state.ledger.bytes ∈
        (({ required := .ofList [.memSafe] } : Config).verify r.totals false
          ({} : Transcript)).1.failures := by
  obtain ⟨r, hr⟩ := exists_run_eq_ok Tape.rig singleCall ({} : Transcript) (keepsFive 328)
  have hvalues : ∀ r ∈ (run Tape.rig singleCall ({} : Transcript) (keepsFive 328)).toOption,
      r.wasAborted = false ∧ r.probeActive = true ∧ r.left = 200 ∧ r.gain = 128 ∧
        r.replaced = 64 ∧ r.state.ledger.bytes = 0 ∧ r.state.series.units = 1 ∧
        ∀ k ∈ r.state.retained, k.room = 0 ∧ k.call.before = 0 ∧ k.call.after = 328 ∧
          k.call.reply.kept = [0, 0, 0, 0, 0] := by decide +kernel
  obtain ⟨hcompleted, hactive, hleft, hgain, hreplaced, hbytes, hunits, hcalls⟩ :=
    hvalues r (by rw [hr]; rfl)
  have honHeap : ∀ k ∈ r.state.retained, k.OnHeap ⟨{}, {}, none⟩ keepsFiveEvents := by
    intro k hk
    obtain ⟨hroom, hbefore, hafter, hkept⟩ := hcalls k hk
    exact
      { sound := rfl
        empty := rfl
        room := hroom.symm
        before := hbefore
        after := hafter.trans (by decide)
        kept := hkept.symm
        own := ⟨fun _ h => (nomatch h), fun _ h => by cases h; decide, trivial⟩
        live := by decide
        counter := by decide }
  obtain ⟨-, hnet, hverify⟩ := overhead_hides_replaced.2.2 Tape.rig singleCall {} (keepsFive 328)
    r hr hcompleted hactive fun k hk => (overhead_hides_replaced.2.1 k _ _ (honHeap k hk)).1
  have hnet := hnet (by omega)
  rw [hleft, hreplaced] at hnet
  refine ⟨r, hr, honHeap, hleft, hreplaced, hnet, (hverify _ false {} (by decide)).mpr ?_⟩
  rw [hbytes, hunits, hnet]
  decide

/-- The overhead of the call is not what the kept values added, and 64 bytes
that the routine left are not in the net measured bytes. -/
theorem overhead_ne_gain_keepsFive :
    (({} : Retention).releaseAll [[0, 0, 0, 0, 0]]).overhead.toNat ≠
        Retention.sumOver Retention.gain {} [[0, 0, 0, 0, 0]] ∧
      ∃ r : Run Tape Transcript, run Tape.rig singleCall {} (keepsFive 192) = .ok r ∧
        r.wasAborted = false ∧ r.probeActive = true ∧
        (∀ k ∈ r.state.retained, k.call.before.toNat + k.gain ≤ k.call.after.toNat) ∧
        r.left = 64 ∧ r.netMeasured = 0 ∧
        (({ required := .ofList [.memSafe] } : Config).verify r.totals false
          ({} : Transcript)).1.failures = [] := by
  refine ⟨by decide, ?_⟩
  obtain ⟨r, hr⟩ := exists_run_eq_ok Tape.rig singleCall ({} : Transcript) (keepsFive 192)
  have hvalues : ∀ r ∈ (run Tape.rig singleCall ({} : Transcript) (keepsFive 192)).toOption,
      r.wasAborted = false ∧ r.probeActive = true ∧
        (∀ k ∈ r.state.retained, k.call.before.toNat + k.gain ≤ k.call.after.toNat) ∧
        r.left = 64 ∧ r.netMeasured = 0 ∧
        (({ required := .ofList [.memSafe] } : Config).verify r.totals false
          ({} : Transcript)).1.failures = [] := by decide +kernel
  exact ⟨r, hr, hvalues r (by rw [hr]; rfl)⟩

end

end CostAudit.Loop
