import Mathlib.Data.List.Nodup
import Mathlib.Data.List.Range
import CostAudit.Proofs.Heap

/-!
# Counters that balance

A counting heap that is only asked for blocks of its own (`Call.Proper`)
knows what is live from its two counters: the bytes handed out less the
bytes taken back are what its blocks hold. A request that is refused changes
nothing (`step_refused`), and one that is served changes the block in one
place (`block?_step_served`).

The invariant is `Balanced`: both counters are exact, in natural numbers, as
long as the bytes handed out so far fit a word. One call keeps it
(`Balanced.serve`), because all slots of such a heap were given out for its
own blocks, and the bytes in such slots move as the counters do
(`bytesAt_step`).
-/

namespace CostAudit.Heap

/-! ## One request -/

/-- The slot that a request is about. -/
def Request.place (h : Heap) : Request → Nat
  | .resize slot _ => slot
  | .release slot => slot
  | _ => h.slots.size

/-- The block that a request leaves in its place when it is served. -/
def Request.leaves : Request → Option UInt64
  | .release _ => none
  | r => some r.wanted

section Step

variable {h : Heap} {granted : Bool} {r : Request}

/-- A request is served when there is a block in the slot it names and the
system grants it. Nothing has to be granted to take a block back. -/
theorem step_served_iff :
    (h.step granted r).1 = true ↔ (∀ slot ∈ r.slot?, (h.block? slot).isSome) ∧
      (granted = true ∨ ∃ slot, r = .release slot) := by
  cases r with
  | allocate => cases granted <;> simp [step, Request.slot?]
  | adopt => cases granted <;> simp [step, Request.slot?]
  | resize slot =>
      cases hblock : h.block? slot <;> cases granted <;> simp [step, Request.slot?, hblock]
  | release slot => cases hblock : h.block? slot <;> simp [step, Request.slot?, hblock]

theorem block?_push_eq (allocated : UInt64) (x : Option UInt64) (slot : Nat) :
    ({ h with allocated, slots := h.slots.push x } : Heap).block? slot =
      if slot = h.slots.size then x else h.block? slot := by
  rw [block?, block?, Array.getElem?_push]
  split <;> rfl

theorem block?_set_eq {place : Nat} (hplace : place < h.slots.size) (allocated freed : UInt64)
    (x : Option UInt64) (slot : Nat) :
    (⟨allocated, freed, h.slots.setIfInBounds place x⟩ : Heap).block? slot =
      if slot = place then x else h.block? slot := by
  by_cases hslot : slot = place
  · subst hslot
    simp [block?, hplace]
  · rw [if_neg hslot, block?_set (Ne.symm hslot)]

/-- A request that is served changes the block in its place and no other. -/
theorem block?_step_served (hserved : (h.step granted r).1 = true) (slot : Nat) :
    (h.step granted r).2.block? slot = if slot = r.place h then r.leaves else h.block? slot := by
  obtain ⟨hlive, hgranted⟩ := step_served_iff.mp hserved
  cases r with
  | allocate =>
      obtain rfl : granted = true := by simpa using hgranted
      exact block?_push_eq _ _ slot
  | adopt =>
      obtain rfl : granted = true := by simpa using hgranted
      exact block?_push_eq _ _ slot
  | resize place =>
      obtain rfl : granted = true := by simpa using hgranted
      obtain ⟨old, hold⟩ := Option.isSome_iff_exists.mp (hlive place rfl)
      simp only [step, hold]
      exact block?_set_eq (lt_size_of_block? hold) _ _ _ slot
  | release place =>
      obtain ⟨old, hold⟩ := Option.isSome_iff_exists.mp (hlive place rfl)
      simp only [step, hold]
      exact block?_set_eq (lt_size_of_block? hold) _ _ _ slot

/-- A request about an empty slot changes nothing. -/
theorem step_of_empty {slot : Nat} (hslot : slot ∈ r.slot?) (hempty : h.block? slot = none) :
    h.step granted r = (false, h) := by
  cases r with
  | allocate => cases hslot
  | adopt => cases hslot
  | resize place =>
      obtain rfl : place = slot := Option.some.inj hslot
      simp only [step, hempty]
  | release place =>
      obtain rfl : place = slot := Option.some.inj hslot
      simp only [step, hempty]

/-- A slot that stays empty shows no block, so it is as if it were not
there. -/
theorem block?_push_none (slot : Nat) :
    ({ h with slots := h.slots.push none } : Heap).block? slot = h.block? slot := by
  rw [block?_push_eq]
  split
  · rename_i hslot
    rw [hslot, block?, Array.getElem?_eq_none (Nat.le_refl _), Option.join_none]
  · rfl

/-- A request that is refused leaves the counters and the blocks as they
are. -/
theorem step_refused (hrefused : (h.step granted r).1 = false) :
    (h.step granted r).2.allocated = h.allocated ∧ (h.step granted r).2.freed = h.freed ∧
      ∀ slot, (h.step granted r).2.block? slot = h.block? slot := by
  cases r with
  | allocate =>
      cases granted with
      | false => exact ⟨rfl, rfl, block?_push_none⟩
      | true => cases hrefused
  | adopt =>
      cases granted with
      | false => exact ⟨rfl, rfl, block?_push_none⟩
      | true => cases hrefused
  | resize place =>
      cases hblock : h.block? place with
      | none => simp [step, hblock]
      | some old =>
          cases granted with
          | false => simp [step, hblock]
          | true => simp [step, hblock] at hrefused
  | release place =>
      cases hblock : h.block? place with
      | none => simp [step, hblock]
      | some old => simp [step, hblock] at hrefused

end Step

/-! ## Calls -/

/-- A request together with the answer of the system. -/
structure Call where
  granted : Bool
  request : Request

/-- A call that asks for a block of the heap's own, or is about one. -/
def Call.Proper (c : Call) : Prop := ∀ size, c.request ≠ .adopt size

/-- Whether a call succeeds. -/
def succeeds (h : Heap) (c : Call) : Bool := (h.step c.granted c.request).1

/-- The heap after a call. -/
def serve (h : Heap) (c : Call) : Heap := (h.step c.granted c.request).2

/-- The heap after some calls. -/
def serveAll (h : Heap) (calls : List Call) : Heap := calls.foldl serve h

/-- The bytes that a call hands out. -/
def handed (h : Heap) (c : Call) : UInt64 := if h.succeeds c then c.request.wanted else 0

/-- The bytes that some calls hand out, as a natural number. -/
def handedAll : Heap → List Call → Nat
  | _, [] => 0
  | h, c :: calls => (h.handed c).toNat + handedAll (h.serve c) calls

/-- All slots, the latest first. -/
def allSlots (h : Heap) : List Nat := (List.range h.slots.size).reverse

/-- The bytes of all blocks. -/
def liveBytes (h : Heap) : Nat := h.bytesAt h.allSlots

theorem handedAll_append (h : Heap) (calls rest : List Call) :
    h.handedAll (calls ++ rest) = h.handedAll calls + (h.serveAll calls).handedAll rest := by
  induction calls generalizing h with
  | nil => exact (Nat.zero_add _).symm
  | cons c calls ih =>
      rw [List.cons_append, handedAll, handedAll, ih, Nat.add_assoc]
      rfl

section Serve

variable {h : Heap} {c : Call}

theorem allocated_serve (hproper : c.Proper) :
    (h.serve c).allocated = h.allocated + h.handed c := by
  obtain ⟨granted, r⟩ := c
  cases hserved : (h.step granted r).1 with
  | false =>
      obtain ⟨hsame, -⟩ := step_refused hserved
      simp [serve, handed, succeeds, hserved, hsame]
  | true =>
      obtain ⟨hlive, hgranted⟩ := step_served_iff.mp hserved
      simp only [serve, handed, succeeds, hserved, if_true]
      cases r with
      | allocate =>
          obtain rfl : granted = true := by simpa using hgranted
          rfl
      | adopt size => exact absurd rfl (hproper size)
      | resize place =>
          obtain rfl : granted = true := by simpa using hgranted
          obtain ⟨old, hold⟩ := Option.isSome_iff_exists.mp (hlive place rfl)
          simp only [step, hold]
          rfl
      | release place =>
          obtain ⟨old, hold⟩ := Option.isSome_iff_exists.mp (hlive place rfl)
          simp only [step, hold]
          exact (UInt64.add_zero _).symm

theorem given_allSlots (h : Heap) : h.Given h.allSlots :=
  ⟨List.nodup_reverse.mpr List.nodup_range, fun _ hslot =>
    List.mem_range.mp (List.mem_reverse.mp hslot)⟩

/-- A call that is about a block of the heap's own gives out the slots that
it adds. -/
theorem allSlots_serve (hproper : c.Proper) :
    (h.serve c).allSlots = c.request.given h h.allSlots := by
  obtain ⟨granted, r⟩ := c
  cases r with
  | allocate size zeroed =>
      have hsize : (h.step granted (.allocate size zeroed)).2.slots.size = h.slots.size + 1 := by
        cases granted <;> simp [step]
      rw [allSlots, serve, hsize, List.range_succ, List.reverse_append]
      rfl
  | adopt size => exact absurd rfl (hproper size)
  | resize place =>
      cases hblock : h.block? place <;> cases granted <;>
        simp [serve, step, hblock, allSlots, Request.given]
  | release place =>
      cases hblock : h.block? place <;> simp [serve, step, hblock, allSlots, Request.given]

/-- What the blocks held before a call and what it handed out is what they
hold after it and what was taken back. -/
theorem liveBytes_serve (hproper : c.Proper) :
    (h.serve c).liveBytes + ((h.serve c).freed - h.freed).toNat =
      h.liveBytes + (h.handed c).toNat := by
  have hhanded : ((h.serve c).allocated - h.allocated).toNat = (h.handed c).toNat := by
    rw [allocated_serve hproper, toNat_add_sub_self]
  by_cases hown : ∀ slot ∈ c.request.slot?, slot ∈ h.allSlots
  · rw [liveBytes, allSlots_serve hproper, ← hhanded]
    exact bytesAt_step h.given_allSlots hown c.granted
  · -- A slot that was never given out is empty, so nothing happens.
    simp only [not_forall] at hown
    obtain ⟨slot, hslot, hout⟩ := hown
    have hempty : h.block? slot = none := by
      cases hblock : h.block? slot with
      | none => rfl
      | some size =>
          exact absurd (List.mem_reverse.mpr (List.mem_range.mpr (lt_size_of_block? hblock))) hout
    have hsame : h.serve c = h := by rw [serve, step_of_empty hslot hempty]
    rw [← hhanded, hsame, UInt64.sub_self, UInt64.sub_self]

/-- The counters and the blocks of a heap that has handed out some bytes. -/
structure Balanced (h : Heap) (total : Nat) : Prop where
  allocated : h.allocated.toNat = total
  freed : h.freed.toNat + h.liveBytes = total

theorem balanced_initial : ({} : Heap).Balanced 0 := ⟨rfl, rfl⟩

namespace Balanced

variable {total : Nat}

/-- A call keeps the balance and turns no counter back. -/
theorem serve (hb : h.Balanced total) (hproper : c.Proper)
    (hfits : total + (h.handed c).toNat < 2 ^ 64) :
    (h.serve c).Balanced (total + (h.handed c).toNat) ∧ h.allocated ≤ (h.serve c).allocated ∧
      h.freed ≤ (h.serve c).freed := by
  obtain ⟨hallocated, hfreed⟩ := hb
  have hout : (h.serve c).allocated.toNat = total + (h.handed c).toNat := by
    rw [allocated_serve hproper, UInt64.toNat_add, hallocated]
    exact Nat.mod_eq_of_lt hfits
  have hlive := liveBytes_serve (h := h) hproper
  -- What is taken back was live before, so the other counter cannot wrap.
  have hback : (h.serve c).freed.toNat =
      h.freed.toNat + ((h.serve c).freed - h.freed).toNat := by
    rw [toNat_eq_add_sub h.freed]
    exact Nat.mod_eq_of_lt (by omega)
  refine ⟨⟨hout, by omega⟩, ?_, ?_⟩
  · rw [UInt64.le_iff_toNat_le]
    omega
  · rw [UInt64.le_iff_toNat_le]
    omega

theorem serveAll {calls : List Call} (hb : h.Balanced total)
    (hproper : ∀ c ∈ calls, c.Proper) (hfits : total + h.handedAll calls < 2 ^ 64) :
    (h.serveAll calls).Balanced (total + h.handedAll calls) := by
  induction calls generalizing h total with
  | nil => exact hb
  | cons c calls ih =>
      obtain ⟨hc, hcalls⟩ := List.forall_mem_cons.mp hproper
      rw [handedAll, ← Nat.add_assoc] at hfits ⊢
      obtain ⟨hnext, -, -⟩ := hb.serve hc (by omega)
      exact ih hnext hcalls hfits

/-- The difference of the counters, and what the heap says is live, are the
bytes of its blocks. -/
theorem live_eq (hb : h.Balanced total) :
    h.freed ≤ h.allocated ∧ (h.allocated - h.freed).toNat = h.liveBytes ∧
      h.live.toNat = h.liveBytes := by
  obtain ⟨hallocated, hfreed⟩ := hb
  have hle : h.freed ≤ h.allocated := by
    rw [UInt64.le_iff_toNat_le]
    omega
  refine ⟨hle, ?_, ?_⟩
  · rw [UInt64.toNat_sub_of_le _ _ hle]
    omega
  · rw [live, toNat_satSub]
    omega

end Balanced

end Serve

/-- What a call does to the counters and the blocks of a heap. -/
structure Serves (h : Heap) (c : Call) : Prop where
  /-- It succeeds when the system grants it and the block it is about is
  live; a block is always taken back. -/
  succeeds_iff : h.succeeds c = true ↔ (∀ slot ∈ c.request.slot?, (h.block? slot).isSome) ∧
    (c.granted = true ∨ ∃ slot, c.request = .release slot)
  counters : h.allocated ≤ (h.serve c).allocated ∧ h.freed ≤ (h.serve c).freed
  block : h.succeeds c = true → ∀ slot, (h.serve c).block? slot =
    if slot = c.request.place h then c.request.leaves else h.block? slot
  refused : h.succeeds c = false → (h.serve c).allocated = h.allocated ∧
    (h.serve c).freed = h.freed ∧ ∀ slot, (h.serve c).block? slot = h.block? slot

/-- **The counters balance.** However calls for blocks of a heap's own and
about them follow each other, and whichever of them the system grants, as
long as the bytes handed out fit a word the bytes handed out less the bytes
taken back are those of the live blocks after every call; no call turns a
counter back, and one that fails changes neither the counters nor the
blocks. -/
theorem counters_balance {calls : List Call} (hproper : ∀ c ∈ calls, c.Proper)
    (hfits : ({} : Heap).handedAll calls < 2 ^ 64) :
    (∀ past, past <+: calls → let h := ({} : Heap).serveAll past
      h.freed ≤ h.allocated ∧ (h.allocated - h.freed).toNat = h.liveBytes ∧
        h.live.toNat = h.liveBytes) ∧
    ∀ past c, past ++ [c] <+: calls → (({} : Heap).serveAll past).Serves c := by
  have hbalanced : ∀ past, past <+: calls →
      (({} : Heap).serveAll past).Balanced (({} : Heap).handedAll past) := by
    rintro past ⟨rest, rfl⟩
    rw [handedAll_append] at hfits
    have hpast : ∀ c ∈ past, c.Proper := fun c hc => hproper c (List.mem_append_left rest hc)
    have hserved := balanced_initial.serveAll hpast (by omega)
    rwa [Nat.zero_add] at hserved
  refine ⟨fun past hpast => (hbalanced past hpast).live_eq, fun past c hnext => ?_⟩
  have hpast : past <+: calls := (List.prefix_append past [c]).trans hnext
  have hc : c.Proper := hproper c (hnext.subset (by simp))
  have hroom : ({} : Heap).handedAll past + ((({} : Heap).serveAll past).handed c).toNat < 2 ^ 64 := by
    obtain ⟨rest, rfl⟩ := hnext
    rw [handedAll_append, handedAll_append, handedAll, handedAll] at hfits
    omega
  obtain ⟨-, hcounters⟩ := (hbalanced past hpast).serve hc hroom
  exact ⟨step_served_iff, hcounters, block?_step_served, step_refused⟩

/-- A block that grows, fails to grow further, and is taken back next to
another one. -/
def someCalls : List Call :=
  [⟨true, .allocate 64 false⟩, ⟨false, .allocate 32 true⟩, ⟨true, .resize 0 128⟩,
    ⟨true, .allocate 16 true⟩, ⟨false, .resize 0 2305843009213693952⟩, ⟨false, .release 0⟩]

/-- Of these six calls two fail, and sixteen bytes are live at the end. -/
theorem counters_balance_of_someCalls :
    (∀ c ∈ someCalls, c.Proper) ∧ ({} : Heap).handedAll someCalls < 2 ^ 64 ∧
      ({} : Heap).handedAll someCalls = 208 ∧
      (({} : Heap).serveAll someCalls).live.toNat = 16 ∧
      (({} : Heap).serveAll (someCalls.take 4)).Serves ⟨false, .resize 0 2305843009213693952⟩ := by
  have hproper : ∀ c ∈ someCalls, c.Proper := by
    simp [someCalls, Call.Proper]
  have htotal : ({} : Heap).handedAll someCalls = 208 := by decide
  have hfits : ({} : Heap).handedAll someCalls < 2 ^ 64 := by
    rw [htotal]
    decide
  obtain ⟨hbalance, hserves⟩ := counters_balance hproper hfits
  refine ⟨hproper, hfits, htotal, ?_, hserves _ _ ⟨[⟨false, .release 0⟩], rfl⟩⟩
  rw [(hbalance someCalls (List.prefix_refl _)).2.2]
  decide

end CostAudit.Heap
