import CostAudit.Config
import CostAudit.Heap

/-!
# Memory probes

A probe reads memory use from the world around it: the bytes now live and
the bytes handed out since some origin. A precise reading settles the heap
first, by two collection passes, so that what the first pass put off is
done by the second; an approximate reading takes the running count. A
probe says whether its readings mean anything at all, and whether a run
must have it to itself.
-/

namespace CostAudit

/-- A source of memory readings in a world `W`. -/
structure Probe (W : Type) where
  /-- Runs one collection pass. -/
  collect : W → W := id
  live : W → UInt64
  allocated : W → UInt64
  /-- Whether readings reflect real allocations. -/
  active : W → Bool := fun _ => true
  /-- Whether concurrent runs would see each other's allocations, so that
  a run holds the probe alone. -/
  exclusive : Bool := false

namespace Probe

variable {W : Type}

def read (p : Probe W) : ProbeMode → W → UInt64 × W
  | .precise, w =>
    let settled := p.collect (p.collect w)
    (p.live settled, settled)
  | .approximate, w => (p.allocated w, w)

/-- The probe that always reads zero and says so. -/
def null : Probe W where
  live _ := 0
  allocated _ := 0
  active _ := false

/-- The probe over a counting heap; it means something only when
allocations really go through that heap. -/
def ofHeap (heap : W → Heap) (installed : W → Bool) : Probe W where
  live w := (heap w).live
  allocated w := (heap w).allocated
  active := installed
  exclusive := true

end Probe

end CostAudit
