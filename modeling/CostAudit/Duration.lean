import CostAudit.Saturating

/-!
# Spans of time

A `Duration` is a whole number of nanoseconds between zero and the longest
span, which is `2 ^ 64 - 1` seconds and `999 999 999` nanoseconds. Clock
readings and budgets are durations. Addition stops at the longest span and
subtraction at zero, so a clock that runs backwards yields an empty span
and not a fault.

The bound is carried by the type; every operation below is determined by
its value in nanoseconds (`nanos_satAdd`, `nanos_satSub`).
-/

namespace CostAudit

/-- The number of nanoseconds in a second. -/
def nanosPerSecond : Nat := 1000000000

/-- A span of time in whole nanoseconds. -/
structure Duration where
  nanos : Nat
  nanos_lt : nanos < 18446744073709551616 * nanosPerSecond
  deriving DecidableEq

namespace Duration

/-- The longest span in nanoseconds. -/
def maxNanos : Nat := 18446744073709551616 * nanosPerSecond - 1

/-- The span of `n` nanoseconds, cut at the longest span. -/
def ofNanos (n : Nat) : Duration :=
  ⟨min n maxNanos, by
    have h : 0 < 18446744073709551616 * nanosPerSecond := by decide
    unfold maxNanos
    omega⟩

def zero : Duration := ofNanos 0

/-- The span of a whole number of seconds and some nanoseconds. -/
def ofParts (secs nanos : Nat) : Duration := ofNanos (secs * nanosPerSecond + nanos)

/-- The span of a word of nanoseconds. -/
def ofWord (w : UInt64) : Duration := ofNanos w.toNat

def secs (d : Duration) : Nat := d.nanos / nanosPerSecond

/-- Nanoseconds of a span beyond its whole seconds. -/
def subsecNanos (d : Duration) : Nat := d.nanos % nanosPerSecond

/-- A span as a word of nanoseconds; longer spans give the greatest word. -/
def toWord (d : Duration) : UInt64 := satOfNat d.nanos

/-- The sum of two spans, cut at the longest span. -/
def satAdd (a b : Duration) : Duration := ofNanos (a.nanos + b.nanos)

/-- The difference of two spans, or the empty span when it would be
negative. -/
def satSub (a b : Duration) : Duration :=
  ⟨a.nanos - b.nanos, Nat.lt_of_le_of_lt (Nat.sub_le _ _) a.nanos_lt⟩

def shorter (a b : Duration) : Duration := if b.nanos < a.nanos then b else a

instance : LE Duration := ⟨fun a b => a.nanos ≤ b.nanos⟩

instance : LT Duration := ⟨fun a b => a.nanos < b.nanos⟩

instance (a b : Duration) : Decidable (a ≤ b) := Nat.decLe a.nanos b.nanos

instance (a b : Duration) : Decidable (a < b) := Nat.decLt a.nanos b.nanos

instance : Inhabited Duration := ⟨zero⟩

theorem ext_nanos {a b : Duration} (h : a.nanos = b.nanos) : a = b := by
  cases a
  cases b
  cases h
  rfl

theorem le_iff {a b : Duration} : a ≤ b ↔ a.nanos ≤ b.nanos := Iff.rfl

theorem lt_iff {a b : Duration} : a < b ↔ a.nanos < b.nanos := Iff.rfl

theorem nanos_ofNanos (n : Nat) : (ofNanos n).nanos = min n maxNanos := rfl

theorem nanos_satAdd (a b : Duration) :
    (satAdd a b).nanos = min (a.nanos + b.nanos) maxNanos := rfl

theorem nanos_satSub (a b : Duration) : (satSub a b).nanos = a.nanos - b.nanos := rfl

theorem nanos_shorter (a b : Duration) :
    (shorter a b).nanos = min a.nanos b.nanos := by
  unfold shorter
  split <;> omega

theorem nanos_ofWord (w : UInt64) : (ofWord w).nanos = w.toNat := by
  have h := w.toNat_lt
  have hm : 18446744073709551616 ≤ maxNanos := by decide
  rw [ofWord, nanos_ofNanos]
  omega

theorem secs_lt (d : Duration) : d.secs < 18446744073709551616 := by
  have h := d.nanos_lt
  rw [secs]
  exact Nat.div_lt_of_lt_mul (by rw [Nat.mul_comm]; exact h)

theorem subsecNanos_lt (d : Duration) : d.subsecNanos < nanosPerSecond :=
  Nat.mod_lt _ (by decide)

end Duration

end CostAudit
