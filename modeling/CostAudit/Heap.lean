import CostAudit.Saturating

/-!
# Counting heap

A heap that counts the bytes it hands out and takes back. A request goes
to the system first; only a request that the system grants moves the
counters, and a block that grows or shrinks counts as handed out anew and
taken back at its old size. A block that came from elsewhere was never
counted as handed out, but is counted when it is given back.

Blocks sit in numbered slots: every request for a new block takes the next
slot, which stays empty when the request is refused.
-/

namespace CostAudit

/-- Counters and blocks. -/
structure Heap where
  allocated : UInt64 := 0
  /-- Bytes taken back. -/
  freed : UInt64 := 0
  /-- The size of the block in each slot, if the slot has one. -/
  slots : Array (Option UInt64) := #[]
  deriving Inhabited

namespace Heap

/-- What can be asked of a heap. -/
inductive Request where
  | allocate (size : UInt64) (zeroed : Bool)
  /-- Takes over a block that was obtained elsewhere. -/
  | adopt (size : UInt64)
  | resize (slot : Nat) (size : UInt64)
  | release (slot : Nat)
  deriving DecidableEq

def block? (h : Heap) (slot : Nat) : Option UInt64 := (h.slots[slot]?).join

/-- Bytes handed out and not taken back. -/
def live (h : Heap) : UInt64 := satSub h.allocated h.freed

/-- Answers a request, given whether the system grants it; also says
whether the request succeeded. -/
def step (h : Heap) (granted : Bool) : Request → Bool × Heap
  | .allocate size _ =>
    if granted then
      (true, { h with allocated := h.allocated + size, slots := h.slots.push (some size) })
    else (false, { h with slots := h.slots.push none })
  | .adopt size =>
    if granted then (true, { h with slots := h.slots.push (some size) })
    else (false, { h with slots := h.slots.push none })
  | .resize slot size =>
    match h.block? slot with
    | none => (false, h)
    | some old =>
      if granted then
        (true, { allocated := h.allocated + size, freed := h.freed + old,
                 slots := h.slots.setIfInBounds slot (some size) })
      else (false, h)
  | .release slot =>
    match h.block? slot with
    | none => (false, h)
    | some old =>
      (true, { h with freed := h.freed + old, slots := h.slots.setIfInBounds slot none })

/-- The bytes a request asks the system for. -/
def Request.wanted : Request → UInt64
  | allocate size _ => size
  | adopt size => size
  | resize _ size => size
  | release _ => 0

/-- A system with ample memory: it grants every block that its address
space could hold. -/
def ample (r : Request) : Bool := r.wanted < 2305843009213693952

end Heap

end CostAudit
