import CostAudit.Proofs.Heap
import CostAudit.Proofs.Retention.Live

/-!
# Kept values on a counting heap

A `Shelf` is a counting heap on which the boxes and the list of kept values
stand, next to whatever the routine itself has there. Its invariant is that
the list's block is where and as large as the shelf believes
(`Shelf.Sound`), and with it the counters move over a call by what the
routine asked for and by what the kept values cost, in whatever order the
two ask the heap (`Shelf.counts_run`). The replaced blocks are counted as
taken back, so the live bytes move by what the kept values added
(`Shelf.live_run`).
-/

namespace CostAudit

/-- A counting heap on which kept values stand next to the blocks of a
routine. The block of the list, once it has room, is in the slot `list`. -/
structure Shelf where
  heap : Heap
  retention : Retention
  list : Option Nat

/-- What happens on the heap during a call. -/
inductive Shelf.Event where
  /-- The routine asks for something of its own. -/
  | own (granted : Bool) (request : Heap.Request)
  /-- A value is kept. -/
  | keep (size : UInt64)

namespace Shelf

/-- The bytes of a list's block with some room, as a size of a request. -/
def blockSize (room : Nat) : UInt64 := .ofNat (room * Retention.slotBytes)

/-- Gives the list the block that it needs to grow. -/
def grow (s : Shelf) : Shelf :=
  let size := blockSize (Retention.grownCapacity s.retention.capacity)
  match s.list with
  | none =>
    { s with heap := (s.heap.step true (.allocate size false)).2, list := some s.heap.slots.size }
  | some slot => { s with heap := (s.heap.step true (.resize slot size)).2 }

/-- A box for a value of some size. -/
def box (s : Shelf) (size : UInt64) : Shelf :=
  { s with heap := (s.heap.step true (.allocate size false)).2 }

def act (s : Shelf) : Event → Shelf
  | .own granted request => { s with heap := (s.heap.step granted request).2 }
  | .keep size =>
    let boxed := s.box size
    let shelved := if s.retention.length < s.retention.capacity then boxed else boxed.grow
    { shelved with retention := s.retention.keep size }

def run (s : Shelf) (events : List Event) : Shelf := events.foldl act s

theorem run_cons (s : Shelf) (e : Event) (es : List Event) :
    s.run (e :: es) = (s.act e).run es := rfl

/-- The sizes of the values kept, in order. -/
def kept : List Event → List UInt64
  | [] => []
  | .own .. :: es => kept es
  | .keep size :: es => size :: kept es

/-- The bytes handed out to the routine itself. -/
def ownHanded : Shelf → List Event → Nat
  | _, [] => 0
  | s, .own granted request :: es =>
    ((s.act (.own granted request)).heap.allocated - s.heap.allocated).toNat +
      ownHanded (s.act (.own granted request)) es
  | s, .keep size :: es => ownHanded (s.act (.keep size)) es

/-- The bytes the routine itself gave back. -/
def ownReturned : Shelf → List Event → Nat
  | _, [] => 0
  | s, .own granted request :: es =>
    ((s.act (.own granted request)).heap.freed - s.heap.freed).toNat +
      ownReturned (s.act (.own granted request)) es
  | s, .keep size :: es => ownReturned (s.act (.keep size)) es

/-- The list's block is where the shelf has it, and of the size of its
room. -/
def Sound (s : Shelf) : Prop :=
  match s.list with
  | none => s.retention.capacity = 0
  | some slot =>
    0 < s.retention.capacity ∧ s.heap.block? slot = some (blockSize s.retention.capacity)

/-- The routine leaves the list's block alone. -/
def Spared : Shelf → List Event → Prop
  | _, [] => True
  | s, .own granted request :: es =>
    (∀ slot ∈ s.list, request.slot? ≠ some slot) ∧ Spared (s.act (.own granted request)) es
  | s, .keep size :: es => Spared (s.act (.keep size)) es

theorem sound_own {s : Shelf} (hs : s.Sound) (request : Heap.Request)
    (hspared : ∀ slot ∈ s.list, request.slot? ≠ some slot) (granted : Bool) :
    (s.act (.own granted request)).Sound := by
  obtain ⟨heap, retention, list⟩ := s
  cases list with
  | none => exact hs
  | some slot =>
      have hlt := Heap.lt_size_of_block? hs.2
      exact ⟨hs.1, (Heap.block?_step hlt (hspared slot rfl) granted).trans hs.2⟩

theorem sound_box {s : Shelf} (hs : s.Sound) (size : UInt64) : (s.box size).Sound :=
  sound_own hs (.allocate size false) (fun _ _ h => nomatch h) true

theorem toNat_blockSize (room : Nat) :
    (blockSize room).toNat = room * Retention.slotBytes % 2 ^ 64 :=
  UInt64.toNat_ofNat'

/-- A growth hands out the new block and takes back the one it replaces. -/
theorem grow_counts {s : Shelf} (hs : s.Sound) :
    s.grow.heap.allocated =
        s.heap.allocated + blockSize (Retention.grownCapacity s.retention.capacity) ∧
      s.grow.heap.freed = s.heap.freed + blockSize s.retention.capacity := by
  obtain ⟨heap, retention, list⟩ := s
  cases list with
  | none =>
      have hroom : retention.capacity = 0 := hs
      refine ⟨rfl, ?_⟩
      simp only [hroom]
      exact (UInt64.add_zero _).symm
  | some slot =>
      simp only [grow, Heap.step, hs.2, if_true, and_self]

theorem sound_grow {s : Shelf} (hs : s.Sound) {r : Retention}
    (hroom : r.capacity = Retention.grownCapacity s.retention.capacity) :
    ({ s.grow with retention := r } : Shelf).Sound := by
  obtain ⟨heap, retention, list⟩ := s
  have hpos : 0 < r.capacity := by
    rw [hroom, Retention.grownCapacity]
    omega
  cases list with
  | none =>
      refine ⟨hpos, ?_⟩
      rw [hroom]
      simp [grow, Heap.step, Heap.block?]
  | some slot =>
      refine ⟨hpos, ?_⟩
      have hlt := Heap.lt_size_of_block? hs.2
      rw [hroom]
      simp only [grow, Heap.step, hs.2]
      simp [Heap.block?, hlt]

theorem keep_of_lt {s : Shelf} (h : s.retention.length < s.retention.capacity) (size : UInt64) :
    s.act (.keep size) = { s.box size with retention := s.retention.keep size } := by
  simp only [act, if_pos h]

theorem keep_of_not_lt {s : Shelf} (h : ¬s.retention.length < s.retention.capacity)
    (size : UInt64) :
    s.act (.keep size) = { (s.box size).grow with retention := s.retention.keep size } := by
  simp only [act, if_neg h]

theorem sound_keep {s : Shelf} (hs : s.Sound) (size : UInt64) : (s.act (.keep size)).Sound := by
  have hbox := sound_box hs size
  by_cases h : s.retention.length < s.retention.capacity
  · have hroom : (s.retention.keep size).capacity = s.retention.capacity := by
      rw [Retention.keep_of_lt h]
    rw [keep_of_lt h]
    unfold Sound at hbox ⊢
    simp only [hroom]
    exact hbox
  · rw [keep_of_not_lt h]
    refine sound_grow hbox ?_
    rw [Retention.keep_of_not_lt h]
    rfl

/-- Keeping a value costs a box and, when the list grows, its new block. -/
theorem counts_keep {s : Shelf} (hs : s.Sound) (size : UInt64) :
    (s.act (.keep size)).heap.allocated.toNat =
        (s.heap.allocated.toNat + (size.toNat + Retention.slotBytes * Retention.newPlaces
          (Retention.enlargements s.retention.length s.retention.capacity 1))) % 2 ^ 64 ∧
      (s.act (.keep size)).heap.freed.toNat =
        (s.heap.freed.toNat + Retention.slotBytes * Retention.oldPlaces
          (Retention.enlargements s.retention.length s.retention.capacity 1)) % 2 ^ 64 := by
  have hallocated : (s.box size).heap.allocated = s.heap.allocated + size := rfl
  have hfreed : (s.box size).heap.freed = s.heap.freed := rfl
  have hretention : (s.box size).retention = s.retention := rfl
  by_cases h : s.retention.length < s.retention.capacity
  · have hlt := s.heap.freed.toNat_lt
    rw [keep_of_lt h, Retention.enlargements, if_pos h]
    simp only [hallocated, hfreed, UInt64.toNat_add, Retention.enlargements, Retention.newPlaces,
      Retention.oldPlaces, List.map_nil, List.sum_nil]
    omega
  · have hgrow := grow_counts (sound_box hs size)
    rw [keep_of_not_lt h, Retention.enlargements, if_neg h]
    simp only [hgrow, hallocated, hfreed, hretention, UInt64.toNat_add, toNat_blockSize,
      Retention.enlargements, Retention.newPlaces, Retention.oldPlaces, List.map_cons,
      List.map_nil, List.sum_cons, List.sum_nil, Retention.slotBytes]
    omega

/-- The counters over a call, whatever the order in which the routine and
the kept values ask the heap. -/
theorem counts_run {es : List Event} {s : Shelf} (hs : s.Sound) (hspared : s.Spared es) :
    (s.run es).Sound ∧
      (s.run es).heap.allocated.toNat =
        (s.heap.allocated.toNat + (s.ownHanded es + (Retention.bytes (kept es) +
          Retention.slotBytes * Retention.newPlaces (Retention.enlargements s.retention.length
            s.retention.capacity (kept es).length)))) % 2 ^ 64 ∧
      (s.run es).heap.freed.toNat =
        (s.heap.freed.toNat +
          (s.ownReturned es + s.retention.replacedBytes (kept es))) % 2 ^ 64 := by
  induction es generalizing s with
  | nil =>
      have hallocated := s.heap.allocated.toNat_lt
      have hfreed := s.heap.freed.toNat_lt
      refine ⟨hs, ?_, ?_⟩
      · show s.heap.allocated.toNat = (s.heap.allocated.toNat + 0) % 2 ^ 64
        omega
      · show s.heap.freed.toNat = (s.heap.freed.toNat + 0) % 2 ^ 64
        omega
  | cons e es ih =>
      cases e with
      | own granted request =>
          obtain ⟨hsound, hallocated, hfreed⟩ :=
            ih (sound_own hs request hspared.1 granted) hspared.2
          have hretention : (s.act (.own granted request)).retention = s.retention := rfl
          have hhanded := Heap.toNat_eq_add_sub s.heap.allocated
            (s.act (.own granted request)).heap.allocated
          have hreturned := Heap.toNat_eq_add_sub s.heap.freed
            (s.act (.own granted request)).heap.freed
          rw [hretention] at hallocated hfreed
          refine ⟨hsound, ?_, ?_⟩
          · rw [run_cons, ownHanded, kept, hallocated, hhanded]
            omega
          · rw [run_cons, ownReturned, kept, hfreed, hreturned]
            omega
      | keep size =>
          obtain ⟨hsound, hallocated, hfreed⟩ := ih (sound_keep hs size) hspared
          have hretention : (s.act (.keep size)).retention = s.retention.keep size := rfl
          have hroom : (s.retention.keep size).capacity = Retention.roomAfter _ _ :=
            Retention.capacity_keepAll [size] s.retention
          have hsucc := Retention.enlargements_succ s.retention.length s.retention.capacity
            (kept es).length
          have hkeep := counts_keep hs size
          rw [hretention, Retention.length_keep, hroom, List.length_singleton] at hallocated
          rw [hretention, Retention.replacedBytes, Retention.length_keep, hroom,
            List.length_singleton] at hfreed
          refine ⟨hsound, ?_, ?_⟩
          · rw [run_cons, hallocated, hkeep.1, ownHanded, kept, Retention.bytes_cons,
              List.length_cons, hsucc, Retention.newPlaces_append]
            simp only [Retention.slotBytes]
            omega
          · rw [run_cons, hfreed, hkeep.2, ownReturned, kept, Retention.replacedBytes,
              List.length_cons, hsucc, Retention.oldPlaces_append]
            simp only [Retention.slotBytes]
            omega

/-- Over a call that gives back no more than it was handed, and that never
touches the list's block, the live bytes move by what the routine left and
by what the kept values added. -/
theorem live_run {es : List Event} {s : Shelf} (hs : s.Sound) (hspared : s.Spared es)
    (hreturned : s.ownReturned es ≤ s.ownHanded es) (hlive : s.heap.freed ≤ s.heap.allocated)
    (hcounter : s.heap.allocated.toNat + (s.ownHanded es + (s.retention.gain (kept es) +
      s.retention.replacedBytes (kept es))) < 2 ^ 64) :
    (s.run es).heap.live.toNat =
      s.heap.live.toNat + (s.ownHanded es - s.ownReturned es) + s.retention.gain (kept es) := by
  obtain ⟨-, hallocated, hfreed⟩ := counts_run hs hspared
  have hadded := s.retention.liveBytes_keepAll (kept es)
  have hle := s.retention.liveBytes_le_keepAll (kept es)
  rw [UInt64.le_iff_toNat_le] at hlive
  unfold Retention.gain at hcounter ⊢
  rw [Heap.live, Heap.live, toNat_satSub, toNat_satSub, hallocated, hfreed]
  omega

end Shelf

end CostAudit
