import CostAudit.Proofs.Retention.Room

/-!
# What keeping values adds to the live bytes

Between the readings around a call the kept values add to the live bytes
their own bytes and the room that the list gained (`liveBytes`). The
overhead that is charged for them is more: a growth is charged with the
whole new block, while the block it replaces has gone back to the heap and
is no longer live. So over any calls the overhead is what the kept values
added, together with the blocks that were replaced
(`overhead_releaseAll`).
-/

namespace CostAudit

namespace Retention

/-- The bytes that kept values and their list have live. -/
def liveBytes (r : Retention) : Nat := bytes r.sizes.toList + slotBytes * r.capacity

theorem bytes_append (xs ys : List UInt64) : bytes (xs ++ ys) = bytes xs + bytes ys := by
  simp [bytes]

/-- The bytes of the blocks that are replaced while values of some sizes are
kept. -/
def replacedBytes (r : Retention) (sizes : List UInt64) : Nat :=
  slotBytes * oldPlaces (enlargements r.length r.capacity sizes.length)

/-- The live bytes that keeping values of some sizes adds. -/
def gain (r : Retention) (sizes : List UInt64) : Nat :=
  (r.keepAll sizes).liveBytes - r.liveBytes

theorem liveBytes_keepAll (r : Retention) (sizes : List UInt64) :
    (r.keepAll sizes).liveBytes + r.replacedBytes sizes =
      r.liveBytes + (bytes sizes +
        slotBytes * newPlaces (enlargements r.length r.capacity sizes.length)) := by
  have hplaces := newPlaces_enlargements sizes.length r.length r.capacity
  simp only [liveBytes, replacedBytes, sizes_keepAll, capacity_keepAll, bytes_append, slotBytes]
  omega

theorem liveBytes_le_keepAll (r : Retention) (sizes : List UInt64) :
    r.liveBytes ≤ (r.keepAll sizes).liveBytes := by
  have hroom := le_roomAfter_enlargements sizes.length r.length r.capacity
  simp only [liveBytes, sizes_keepAll, capacity_keepAll, bytes_append, slotBytes]
  omega

/-- What is added depends on the length and the room of the list alone. -/
theorem gain_eq (r : Retention) (sizes : List UInt64) :
    r.gain sizes = bytes sizes +
      slotBytes * newPlaces (enlargements r.length r.capacity sizes.length) -
        r.replacedBytes sizes := by
  have hlive := r.liveBytes_keepAll sizes
  unfold gain
  omega

/-- Keeping values is charged with the live bytes it adds and with the blocks
it replaces. -/
theorem overhead_keepAll_gain (r : Retention) (sizes : List UInt64) :
    (r.keepAll sizes).overhead.toNat =
      min (r.overhead.toNat + (r.gain sizes + r.replacedBytes sizes)) (2 ^ 64 - 1) := by
  have hlive := r.liveBytes_keepAll sizes
  have hle := r.liveBytes_le_keepAll sizes
  rw [overhead_keepAll, gain]
  omega

/-! ## Calls -/

/-- Keeps values of some sizes and releases them. -/
def release (r : Retention) (sizes : List UInt64) : Retention := (r.keepAll sizes).clear

/-- The same for the values of one call after another. -/
def releaseAll (r : Retention) (calls : List (List UInt64)) : Retention := calls.foldl release r

/-- Sums up what each call finds in the list of kept values. -/
def sumOver (f : Retention → List UInt64 → Nat) : Retention → List (List UInt64) → Nat
  | _, [] => 0
  | r, sizes :: calls => f r sizes + sumOver f (r.release sizes) calls

/-- Over any calls the overhead grows by the live bytes that each call added
between its readings, and by the blocks that were replaced. -/
theorem overhead_releaseAll (calls : List (List UInt64)) (r : Retention) :
    (r.releaseAll calls).overhead.toNat =
      min (r.overhead.toNat + (sumOver gain r calls + sumOver replacedBytes r calls))
        (2 ^ 64 - 1) := by
  induction calls generalizing r with
  | nil =>
      have h := r.overhead.toNat_lt
      simp only [releaseAll, List.foldl_nil, sumOver]
      omega
  | cons sizes calls ih =>
      have hcall : (r.release sizes).overhead.toNat = _ := r.overhead_keepAll_gain sizes
      rw [releaseAll, List.foldl_cons, ← releaseAll, ih, hcall]
      simp only [sumOver]
      omega

end Retention

end CostAudit
