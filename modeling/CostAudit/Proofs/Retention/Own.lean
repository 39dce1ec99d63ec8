import CostAudit.Proofs.Retention.Shelf

/-!
# Blocks of the routine's own making

A routine that resizes and releases only blocks that it made during the
call (`Shelf.OwnOnly`) never comes near the blocks that stood before, nor
near a box or the list of the kept values. Its own blocks and the list's
stay apart (`Shelf.Apart`), so what it was handed and did not give back is
what its own blocks hold (`Shelf.bytesAt_run`), and the live bytes move over
the call by these and by what the kept values added (`Shelf.live_run_own`).
-/

namespace CostAudit

namespace Shelf

/-- The slots that the routine was given for blocks of its own, after some
events. -/
def given : Shelf → List Nat → List Event → List Nat
  | _, slots, [] => slots
  | s, slots, .own granted request :: es =>
    given (s.act (.own granted request)) (request.given s.heap slots) es
  | s, slots, .keep size :: es => given (s.act (.keep size)) slots es

/-- The routine resizes and releases only blocks of its own making. -/
def OwnOnly : Shelf → List Nat → List Event → Prop
  | _, _, [] => True
  | s, slots, .own granted request :: es =>
    (∀ slot ∈ request.slot?, slot ∈ slots) ∧
      OwnOnly (s.act (.own granted request)) (request.given s.heap slots) es
  | s, slots, .keep size :: es => OwnOnly (s.act (.keep size)) slots es

/-- The slots were given to the routine, and none of them is the list's. -/
structure Apart (s : Shelf) (slots : List Nat) : Prop where
  given : s.heap.Given slots
  list : ∀ slot ∈ s.list, slot ∉ slots

theorem lt_size_of_mem_list {s : Shelf} (hs : s.Sound) {slot : Nat} (hslot : slot ∈ s.list) :
    slot < s.heap.slots.size := by
  obtain ⟨heap, retention, list⟩ := s
  cases hslot
  exact Heap.lt_size_of_block? hs.2

theorem apart_own {s : Shelf} (hs : s.Sound) {slots : List Nat} (hapart : s.Apart slots)
    (granted : Bool) (request : Heap.Request) :
    (s.act (.own granted request)).Apart (request.given s.heap slots) := by
  refine ⟨Heap.given_step hapart.given granted request, fun slot hslot hmem => ?_⟩
  cases request with
  | allocate size zeroed =>
      rcases List.mem_cons.mp hmem with rfl | hmem
      · exact Nat.lt_irrefl _ (lt_size_of_mem_list hs hslot)
      · exact hapart.list slot hslot hmem
  | adopt => exact hapart.list slot hslot hmem
  | resize => exact hapart.list slot hslot hmem
  | release => exact hapart.list slot hslot hmem

/-! ## What keeping a value leaves alone -/

theorem apart_box {s : Shelf} {slots : List Nat} (hapart : s.Apart slots) (size : UInt64) :
    (s.box size).Apart slots ∧ (s.box size).heap.bytesAt slots = s.heap.bytesAt slots :=
  ⟨⟨hapart.given.mono (s.heap.size_le_size_step _ _), hapart.list⟩,
    Heap.bytesAt_push hapart.given _ _⟩

theorem apart_grow {s : Shelf} {slots : List Nat} (hapart : s.Apart slots) :
    s.grow.Apart slots ∧ s.grow.heap.bytesAt slots = s.heap.bytesAt slots := by
  obtain ⟨heap, retention, list⟩ := s
  cases list with
  | none =>
      refine ⟨⟨hapart.given.mono (heap.size_le_size_step _ _), fun slot hslot hmem => ?_⟩,
        Heap.bytesAt_push hapart.given _ _⟩
      cases hslot
      exact Nat.lt_irrefl _ (hapart.given.lt _ hmem)
  | some slot =>
      refine ⟨⟨hapart.given.mono (heap.size_le_size_step _ _), hapart.list⟩,
        Heap.bytesAt_congr fun other hother => ?_⟩
      have hne : some slot ≠ some other :=
        fun h => hapart.list slot rfl (Option.some.inj h ▸ hother)
      exact Heap.block?_step (r := .resize slot _) (hapart.given.lt other hother) hne true

theorem apart_keep {s : Shelf} {slots : List Nat} (hapart : s.Apart slots) (size : UInt64) :
    (s.act (.keep size)).Apart slots ∧
      (s.act (.keep size)).heap.bytesAt slots = s.heap.bytesAt slots := by
  obtain ⟨hbox, hbytes⟩ := apart_box hapart size
  by_cases h : s.retention.length < s.retention.capacity
  · rw [keep_of_lt h]
    exact ⟨⟨hbox.given, hbox.list⟩, hbytes⟩
  · obtain ⟨hgrow, hgrown⟩ := apart_grow hbox
    rw [keep_of_not_lt h]
    exact ⟨⟨hgrow.given, hgrow.list⟩, hgrown.trans hbytes⟩

/-! ## Whole calls -/

theorem spared_of_ownOnly {es : List Event} {s : Shelf} (hs : s.Sound) {slots : List Nat}
    (hapart : s.Apart slots) (hown : s.OwnOnly slots es) : s.Spared es := by
  induction es generalizing s slots with
  | nil => trivial
  | cons e es ih =>
      cases e with
      | own granted request =>
          have hspared : ∀ slot ∈ s.list, request.slot? ≠ some slot :=
            fun slot hslot h => hapart.list slot hslot (hown.1 slot h)
          exact ⟨hspared, ih (sound_own hs request hspared granted)
            (apart_own hs hapart granted request) hown.2⟩
      | keep size => exact ih (sound_keep hs size) (apart_keep hapart size).1 hown

/-- What the routine's blocks held and what it was handed is what its blocks
hold and what it gave back. -/
theorem bytesAt_run {es : List Event} {s : Shelf} (hs : s.Sound) {slots : List Nat}
    (hapart : s.Apart slots) (hown : s.OwnOnly slots es) :
    (s.run es).heap.bytesAt (s.given slots es) + s.ownReturned es =
      s.heap.bytesAt slots + s.ownHanded es := by
  -- The slots move along with the events: each block made joins them.
  induction es generalizing s slots with
  | nil => rfl
  | cons e es ih =>
      cases e with
      | own granted request =>
          have hspared := spared_of_ownOnly hs hapart hown
          have hrest := ih (sound_own hs request hspared.1 granted)
            (apart_own hs hapart granted request) hown.2
          have hstep : (s.act (.own granted request)).heap.bytesAt (request.given s.heap slots) +
              ((s.act (.own granted request)).heap.freed - s.heap.freed).toNat =
                s.heap.bytesAt slots +
                  ((s.act (.own granted request)).heap.allocated - s.heap.allocated).toNat :=
            Heap.bytesAt_step hapart.given hown.1 granted
          simp only [run_cons, given, ownReturned, ownHanded]
          omega
      | keep size =>
          obtain ⟨hkept, hbytes⟩ := apart_keep hapart size
          have hrest := ih (sound_keep hs size) hkept hown
          rw [hbytes] at hrest
          exact hrest

theorem apart_nil (s : Shelf) : s.Apart [] :=
  ⟨⟨List.nodup_nil, fun _ h => nomatch h⟩, fun _ _ h => nomatch h⟩

/-- Over a call whose routine resizes and releases only blocks of its own
making, the live bytes move by what its blocks hold at the end and by what
the kept values added. -/
theorem live_run_own {es : List Event} {s : Shelf} (hs : s.Sound) (hown : s.OwnOnly [] es)
    (hlive : s.heap.freed ≤ s.heap.allocated)
    (hcounter : s.heap.allocated.toNat + (s.ownHanded es + (s.retention.gain (kept es) +
      s.retention.replacedBytes (kept es))) < 2 ^ 64) :
    (s.run es).heap.live.toNat =
      s.heap.live.toNat + (s.run es).heap.bytesAt (s.given [] es) +
        s.retention.gain (kept es) := by
  have hbytes : (s.run es).heap.bytesAt (s.given [] es) + s.ownReturned es = 0 + s.ownHanded es :=
    bytesAt_run hs s.apart_nil hown
  have hrun := live_run hs (spared_of_ownOnly hs s.apart_nil hown) (by omega) hlive hcounter
  omega

end Shelf

end CostAudit
