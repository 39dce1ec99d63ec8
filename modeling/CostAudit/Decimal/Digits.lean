/-!
# Decimal digits

The decimal writing of a natural number, most significant digit first and
without a leading zero, and the number a run of digits denotes. Reading
undoes writing (`value_digits`), so a number printed in a report is the
number read from it.

A fraction is printed with a fixed count of decimal places by rounding its
exact value once, to the nearest multiple of the last place; an exact half
goes to the even neighbour.
-/

namespace CostAudit.Decimal

/-- The character of a digit below ten. -/
def digitChar (d : Nat) : Char := Char.ofNat (48 + d)

/-- Whether a character is one of the ten decimal digits. -/
def isDigit (c : Char) : Bool := 48 ≤ c.toNat && c.toNat ≤ 57

/-- The decimal digits of a number; zero is the single digit `0`. -/
def digits (n : Nat) : List Char :=
  if n < 10 then [digitChar n] else digits (n / 10) ++ [digitChar (n % 10)]
termination_by n

def value (cs : List Char) : Nat :=
  cs.foldl (fun acc c => 10 * acc + (c.toNat - 48)) 0

/-- The digits of a number filled with leading zeros up to a width. -/
def padded (width n : Nat) : List Char :=
  List.replicate (width - (digits n).length) '0' ++ digits n

def text (n : Nat) : String := String.ofList (digits n)

/-! ## Rounding to decimal places -/

/-- The whole number nearest to a fraction, a half going to the even
neighbour. -/
def roundHalfEven (q : Rat) : Int :=
  let below := q.floor
  let excess := q - below
  if 1 < 2 * excess ∨ (2 * excess = 1 ∧ below % 2 = 1) then below + 1 else below

/-- The text of a fraction that is not negative, rounded to some decimal
places. With no places the point is left out. -/
def fixed (places : Nat) (q : Rat) : List Char :=
  let scaled := (roundHalfEven (q * Nat.pow 10 places)).toNat
  let whole := digits (scaled / Nat.pow 10 places)
  if places = 0 then whole
  else whole ++ '.' :: padded places (scaled % Nat.pow 10 places)

/-! ## Reading undoes writing -/

theorem toNat_digitChar {d : Nat} (h : d < 10) : (digitChar d).toNat = 48 + d := by
  have hv : (48 + d).isValidChar := Or.inl (by omega)
  rw [digitChar, Char.ofNat, dif_pos hv]
  rfl

theorem isDigit_digitChar {d : Nat} (h : d < 10) : isDigit (digitChar d) = true := by
  simp only [isDigit, toNat_digitChar h, Bool.and_eq_true, decide_eq_true_eq]
  omega

theorem digits_ne_nil (n : Nat) : digits n ≠ [] := by
  unfold digits
  split <;> simp

theorem isDigit_of_mem_digits (n : Nat) : ∀ c ∈ digits n, isDigit c = true := by
  induction n using Nat.strongRecOn with
  | _ n ih =>
    intro c hc
    unfold digits at hc
    split at hc
    · rename_i h
      rw [List.mem_singleton.mp hc]
      exact isDigit_digitChar h
    · rcases List.mem_append.mp hc with hc | hc
      · exact ih (n / 10) (by omega) c hc
      · rw [List.mem_singleton.mp hc]
        exact isDigit_digitChar (Nat.mod_lt _ (by decide))

theorem value_append_singleton (cs : List Char) (c : Char) :
    value (cs ++ [c]) = 10 * value cs + (c.toNat - 48) := by
  simp [value, List.foldl_append]

theorem value_digits (n : Nat) : value (digits n) = n := by
  induction n using Nat.strongRecOn with
  | _ n ih =>
    unfold digits
    split
    · rename_i h
      have hc := toNat_digitChar h
      simp only [value, List.foldl_cons, List.foldl_nil, hc]
      omega
    · rw [value_append_singleton, ih (n / 10) (by omega),
        toNat_digitChar (Nat.mod_lt _ (by decide))]
      omega

end CostAudit.Decimal
