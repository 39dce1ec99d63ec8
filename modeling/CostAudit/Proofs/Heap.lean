import Mathlib.Algebra.Order.Ring.Nat
import CostAudit.Heap

/-!
# Blocks of a counting heap

A request names at most one slot, and the blocks in all other slots stay
what they were (`block?_step`). So a caller whose requests name only slots
that it was given for blocks of its own has, in these slots, the bytes it
was handed and has not given back (`bytesAt_step`).
-/

namespace CostAudit

namespace Heap

/-- The slot whose block a request changes. -/
def Request.slot? : Request → Option Nat
  | .resize slot _ => some slot
  | .release slot => some slot
  | _ => none

theorem lt_size_of_block? {h : Heap} {slot : Nat} {size : UInt64}
    (hblock : h.block? slot = some size) : slot < h.slots.size := by
  rcases Nat.lt_or_ge slot h.slots.size with hlt | hge
  · exact hlt
  · simp [block?, Array.getElem?_eq_none hge] at hblock

theorem block?_push {h : Heap} {slot : Nat} (hlt : slot < h.slots.size)
    (allocated : UInt64) (x : Option UInt64) :
    ({ h with allocated, slots := h.slots.push x } : Heap).block? slot = h.block? slot := by
  simp [block?, Array.getElem?_push, Nat.ne_of_lt hlt]

theorem block?_set {h : Heap} {slot other : Nat} (hne : other ≠ slot)
    (allocated freed : UInt64) (x : Option UInt64) :
    (⟨allocated, freed, h.slots.setIfInBounds other x⟩ : Heap).block? slot = h.block? slot := by
  simp [block?, Array.getElem?_setIfInBounds_ne hne]

/-- A request leaves the other blocks alone. -/
theorem block?_step {h : Heap} {slot : Nat} (hlt : slot < h.slots.size) {r : Request}
    (hne : r.slot? ≠ some slot) (granted : Bool) :
    (h.step granted r).2.block? slot = h.block? slot := by
  cases r with
  | allocate => cases granted <;> exact block?_push hlt _ _
  | adopt => cases granted <;> exact block?_push hlt _ _
  | resize other =>
      have hother : other ≠ slot := fun h => hne (congrArg some h)
      simp only [step]
      split
      · rfl
      · split
        · exact block?_set hother _ _ _
        · rfl
  | release other =>
      have hother : other ≠ slot := fun h => hne (congrArg some h)
      simp only [step]
      split
      · rfl
      · exact block?_set hother _ _ _

/-- No request takes a slot away. -/
theorem size_le_size_step (h : Heap) (granted : Bool) (r : Request) :
    h.slots.size ≤ (h.step granted r).2.slots.size := by
  cases r with
  | allocate => cases granted <;> simp [step]
  | adopt => cases granted <;> simp [step]
  | resize slot =>
      simp only [step]
      split
      · exact Nat.le_refl _
      · split <;> simp
  | release slot =>
      simp only [step]
      split <;> simp

/-! ## Bytes in some slots -/

def bytesIn (h : Heap) (slot : Nat) : Nat := ((h.block? slot).getD 0).toNat

/-- The bytes of the blocks in some slots. -/
def bytesAt (h : Heap) : List Nat → Nat
  | [] => 0
  | slot :: slots => h.bytesIn slot + bytesAt h slots

theorem bytesAt_cons (h : Heap) (slot : Nat) (slots : List Nat) :
    h.bytesAt (slot :: slots) = h.bytesIn slot + h.bytesAt slots := rfl

theorem bytesAt_congr {h h' : Heap} {slots : List Nat}
    (hsame : ∀ slot ∈ slots, h'.block? slot = h.block? slot) :
    h'.bytesAt slots = h.bytesAt slots := by
  induction slots with
  | nil => rfl
  | cons slot slots ih =>
      rw [bytesAt_cons, bytesAt_cons, ih fun other h => hsame other (List.mem_cons_of_mem _ h),
        bytesIn, bytesIn, hsame slot (List.mem_cons_self ..)]

/-- When one of the slots gets another block, the bytes change by the
difference of the two. -/
theorem bytesAt_change {h h' : Heap} {slot : Nat} {slots : List Nat} (hnodup : slots.Nodup)
    (hmem : slot ∈ slots)
    (hsame : ∀ other ∈ slots, other ≠ slot → h'.block? other = h.block? other) :
    h'.bytesAt slots + h.bytesIn slot = h.bytesAt slots + h'.bytesIn slot := by
  induction slots with
  | nil => cases hmem
  | cons first slots ih =>
      obtain ⟨hfirst, hnodup⟩ := List.nodup_cons.mp hnodup
      rw [bytesAt_cons, bytesAt_cons]
      by_cases heq : first = slot
      · subst heq
        have hrest : h'.bytesAt slots = h.bytesAt slots :=
          bytesAt_congr fun other hother => hsame other (List.mem_cons_of_mem _ hother)
            fun h => hfirst (h ▸ hother)
        omega
      · have hslot : slot ∈ slots := by simpa [Ne.symm heq] using hmem
        have hrest := ih hnodup hslot fun other h => hsame other (List.mem_cons_of_mem _ h)
        have hkept : h'.bytesIn first = h.bytesIn first := by
          rw [bytesIn, bytesIn, hsame first (List.mem_cons_self ..) heq]
        omega

/-! ## Requests for blocks of one's own -/

/-- The slots that a caller was given for blocks of its own, after one more
request. -/
def Request.given (h : Heap) (slots : List Nat) : Request → List Nat
  | .allocate .. => h.slots.size :: slots
  | _ => slots

/-- Slots that were given to one caller: each of them once. -/
structure Given (h : Heap) (slots : List Nat) : Prop where
  nodup : slots.Nodup
  lt : ∀ slot ∈ slots, slot < h.slots.size

theorem Given.mono {h h' : Heap} {slots : List Nat} (hgiven : h.Given slots)
    (hsize : h.slots.size ≤ h'.slots.size) : h'.Given slots :=
  ⟨hgiven.nodup, fun slot hslot => Nat.lt_of_lt_of_le (hgiven.lt slot hslot) hsize⟩

theorem given_step {h : Heap} {slots : List Nat} (hgiven : h.Given slots) (granted : Bool)
    (r : Request) : (h.step granted r).2.Given (r.given h slots) := by
  have hkept := hgiven.mono (h.size_le_size_step granted r)
  cases r with
  | allocate size zeroed =>
      refine ⟨List.nodup_cons.mpr ⟨fun h => Nat.lt_irrefl _ (hgiven.lt _ h), hgiven.nodup⟩, ?_⟩
      intro slot hslot
      rcases List.mem_cons.mp hslot with rfl | hslot
      · cases granted <;> simp [step]
      · exact hkept.lt slot hslot
  | adopt => exact hkept
  | resize => exact hkept
  | release => exact hkept

theorem bytesAt_push {h : Heap} {slots : List Nat} (hgiven : h.Given slots)
    (allocated : UInt64) (x : Option UInt64) :
    ({ h with allocated, slots := h.slots.push x } : Heap).bytesAt slots = h.bytesAt slots :=
  bytesAt_congr fun slot hslot => block?_push (hgiven.lt slot hslot) allocated x

theorem bytesAt_push_cons {h : Heap} {slots : List Nat} (hgiven : h.Given slots)
    (allocated : UInt64) (x : Option UInt64) :
    ({ h with allocated, slots := h.slots.push x } : Heap).bytesAt (h.slots.size :: slots) =
      (x.getD 0).toNat + h.bytesAt slots := by
  have hnew : ({ h with allocated, slots := h.slots.push x } : Heap).bytesIn h.slots.size =
      (x.getD 0).toNat := by
    simp [bytesIn, block?]
  rw [bytesAt_cons, hnew, bytesAt_push hgiven]

theorem bytesAt_set {h : Heap} {slots : List Nat} (hgiven : h.Given slots) {slot : Nat}
    (hslot : slot ∈ slots) {old : UInt64} (hblock : h.block? slot = some old)
    (allocated freed : UInt64) (x : Option UInt64) :
    (⟨allocated, freed, h.slots.setIfInBounds slot x⟩ : Heap).bytesAt slots + old.toNat =
      h.bytesAt slots + (x.getD 0).toNat := by
  have hlt := hgiven.lt slot hslot
  have hold : h.bytesIn slot = old.toNat := by
    rw [bytesIn, hblock]
    rfl
  have hnew : (⟨allocated, freed, h.slots.setIfInBounds slot x⟩ : Heap).bytesIn slot =
      (x.getD 0).toNat := by
    simp [bytesIn, block?, hlt]
  rw [← hold, ← hnew]
  exact bytesAt_change hgiven.nodup hslot fun other _ hne => block?_set (Ne.symm hne) _ _ _

theorem toNat_add_sub_self (counter size : UInt64) :
    (counter + size - counter).toNat = size.toNat := by
  rw [UInt64.add_comm, UInt64.add_sub_cancel]

/-- A counter moves by the difference of its readings, also when it wraps
around. -/
theorem toNat_eq_add_sub (before after : UInt64) :
    after.toNat = (before.toNat + (after - before).toNat) % 2 ^ 64 := by
  have hbefore := before.toNat_lt
  have hafter := after.toNat_lt
  rw [UInt64.toNat_sub]
  omega

/-- A request that names no slot but one's own moves one's own bytes as it
moves the counters. -/
theorem bytesAt_step {h : Heap} {slots : List Nat} (hgiven : h.Given slots) {r : Request}
    (hown : ∀ slot ∈ r.slot?, slot ∈ slots) (granted : Bool) :
    (h.step granted r).2.bytesAt (r.given h slots) +
        ((h.step granted r).2.freed - h.freed).toNat =
      h.bytesAt slots + ((h.step granted r).2.allocated - h.allocated).toNat := by
  cases r with
  | allocate size zeroed =>
      cases granted with
      | false =>
          have hnew := bytesAt_push_cons hgiven h.allocated none
          simpa [step, Request.given] using hnew
      | true =>
          have hnew := bytesAt_push_cons hgiven (h.allocated + size) (some size)
          simp only [step, Request.given, if_true, hnew, toNat_add_sub_self, UInt64.sub_self]
          simp only [Option.getD_some, UInt64.toNat_zero]
          omega
  | adopt size =>
      have hrest := bytesAt_push hgiven h.allocated
      cases granted <;> simpa [step, Request.given] using hrest _
  | resize slot size =>
      cases hblock : h.block? slot with
      | none => simp [step, Request.given, hblock]
      | some old =>
          have hset := bytesAt_set hgiven (hown slot rfl) hblock (h.allocated + size)
            (h.freed + old) (some size)
          cases granted with
          | false => simp [step, Request.given, hblock]
          | true =>
              simp only [step, Request.given, hblock, if_true, toNat_add_sub_self]
              exact hset
  | release slot =>
      cases hblock : h.block? slot with
      | none => simp [step, Request.given, hblock]
      | some old =>
          have hset := bytesAt_set hgiven (hown slot rfl) hblock h.allocated (h.freed + old) none
          simp only [step, Request.given, hblock, toNat_add_sub_self, UInt64.sub_self]
          exact hset

end Heap

end CostAudit
