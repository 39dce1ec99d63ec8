/-!
# Saturating words

Counters of bytes, steps and sample sizes are 64-bit words that stop at
their bounds: a sum that does not fit is the greatest word, a difference
that would be negative is zero. A run that overflows a counter therefore
reports "at least this much", never a small number left over from a
wrap-around.

Each operation is read through `UInt64.toNat`: saturating addition is
addition of natural numbers cut at `2 ^ 64 - 1` (`toNat_satAdd`), and
saturating subtraction is the truncated subtraction of natural numbers
(`toNat_satSub`).
-/

namespace CostAudit

/-- The greatest 64-bit word. -/
def maxWord : UInt64 := 18446744073709551615

/-- The sum of two words, or the greatest word when the sum does not fit. -/
def satAdd (a b : UInt64) : UInt64 :=
  if a + b < a then maxWord else a + b

/-- The difference of two words, or zero when it would be negative. -/
def satSub (a b : UInt64) : UInt64 :=
  if b ≤ a then a - b else 0

/-- A natural number as a word, or the greatest word when it does not fit. -/
def satOfNat (n : Nat) : UInt64 :=
  if n < 18446744073709551616 then n.toUInt64 else maxWord

theorem toNat_maxWord : maxWord.toNat = 18446744073709551615 := rfl

theorem toNat_satAdd (a b : UInt64) :
    (satAdd a b).toNat = min (a.toNat + b.toNat) 18446744073709551615 := by
  have ha := a.toNat_lt
  have hb := b.toNat_lt
  unfold satAdd
  split
  · rename_i h
    rw [UInt64.lt_iff_toNat_lt, UInt64.toNat_add] at h
    rw [toNat_maxWord]
    omega
  · rename_i h
    rw [UInt64.lt_iff_toNat_lt, UInt64.toNat_add] at h
    rw [UInt64.toNat_add]
    omega

theorem toNat_satSub (a b : UInt64) :
    (satSub a b).toNat = a.toNat - b.toNat := by
  unfold satSub
  split
  · rename_i h
    exact UInt64.toNat_sub_of_le _ _ h
  · rename_i h
    rw [UInt64.le_iff_toNat_le] at h
    show 0 = a.toNat - b.toNat
    omega

theorem toNat_satOfNat (n : Nat) : (satOfNat n).toNat = min n 18446744073709551615 := by
  unfold satOfNat
  split
  · rename_i h
    rw [Nat.toUInt64_eq, UInt64.toNat_ofNat']
    omega
  · rw [toNat_maxWord]
    omega

theorem toNat_min (a b : UInt64) : (min a b).toNat = min a.toNat b.toNat := by
  show (if a ≤ b then a else b).toNat = _
  split
  · rename_i h
    exact (Nat.min_eq_left (UInt64.le_iff_toNat_le.mp h)).symm
  · rename_i h
    rw [UInt64.le_iff_toNat_le] at h
    omega

theorem toNat_max (a b : UInt64) : (max a b).toNat = max a.toNat b.toNat := by
  show (if a ≤ b then b else a).toNat = _
  split
  · rename_i h
    exact (Nat.max_eq_right (UInt64.le_iff_toNat_le.mp h)).symm
  · rename_i h
    rw [UInt64.le_iff_toNat_le] at h
    omega

end CostAudit
