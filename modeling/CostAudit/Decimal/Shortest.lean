import CostAudit.Binary64

/-!
# Shortest decimal text of a double

The text of a double has the fewest digits that read back as the same
double, and of those the digits closest to its exact value; a tie goes to
the larger. It is always positional: an exponent is written out in zeros,
and a whole number has no point.

A decimal reads back as the double `m * 2 ^ e` when it lies between the
midpoints to the neighbouring doubles. The midpoints themselves count when
`m` is even, since reading sends a half to the even neighbour. Below a
power of two the neighbour is half as far away, except at the bottom of
the range.
-/

namespace CostAudit.Decimal

open CostAudit.Binary64

def powerOfTen (t : Int) : Rat :=
  if 0 ≤ t then (Nat.pow 10 t.toNat : Rat) else mkRat 1 (Nat.pow 10 (-t).toNat)

/-- The decimals that read back as one double. -/
structure Interval where
  low : Rat
  high : Rat
  closed : Bool

def Interval.contains (i : Interval) (q : Rat) : Bool :=
  if i.closed then i.low ≤ q && q ≤ i.high else i.low < q && q < i.high

/-- The decimals that read back as the positive double `m * 2 ^ e`. -/
def readBack (m : Nat) (e : Int) : Interval :=
  let step := scaled 1 e
  let below := if m = Nat.pow 2 52 ∧ -1074 < e then step / 4 else step / 2
  { low := scaled m e - below, high := scaled m e + step / 2, closed := m % 2 = 0 }

/-- A decimal in scientific form: `coefficient * 10 ^ exponent`. -/
structure Scientific where
  coefficient : Nat
  exponent : Int

/-- The multiple of `10 ^ t` next to `q` that lies in the interval: of the
two neighbours the nearer, on a tie the larger. -/
def onGrid (i : Interval) (q : Rat) (t : Int) : Option Scientific :=
  let step := powerOfTen t
  let below := (q / step).floor.toNat
  let low := (below : Rat) * step
  let high := ((below + 1 : Nat) : Rat) * step
  match i.contains low, i.contains high with
  | true, true => some ⟨if q - low < high - q then below else below + 1, t⟩
  | true, false => some ⟨below, t⟩
  | false, true => some ⟨below + 1, t⟩
  | false, false => none

/-- The count of digits before the point of a positive fraction; for a
fraction below one tenth, minus the count of zeros after it. Doubles need
no more than four hundred places to tell. -/
def magnitude (q : Rat) : Int :=
  ((digits (q * Nat.pow 10 400).floor.toNat).length : Int) - 400

/-- The shortest decimal in the interval around `q`, tried from one digit
up; seventeen digits always suffice. -/
def shortest (i : Interval) (q : Rat) : Scientific :=
  let p := magnitude q
  ((List.range 17).findSome? fun k => onGrid i q (p - (k + 1 : Nat))).getD ⟨0, 0⟩

/-- The digits of a coefficient with its final zeros moved into the
exponent. -/
def trimZeros (cs : List Char) (t : Int) : List Char × Int :=
  let zeros := (cs.reverse.takeWhile (· == '0')).length
  (cs.take (cs.length - zeros), t + zeros)

def positional (d : Scientific) : List Char :=
  let (cs, t) := trimZeros (digits d.coefficient) d.exponent
  if 0 ≤ t then cs ++ List.replicate t.toNat '0'
  else
    let places := (-t).toNat
    let padded := List.replicate (places + 1 - cs.length) '0' ++ cs
    padded.take (padded.length - places) ++ '.' :: padded.drop (padded.length - places)

def floatText (x : Float) : String :=
  match Shape.ofFloat x with
  | .nan => "NaN"
  | .infinite true => "-inf"
  | .infinite false => "inf"
  | .finite negative m e =>
    let body := if m = 0 then ['0'] else positional (shortest (readBack m e) (scaled m e))
    (if negative then "-" else "") ++ String.ofList body

end CostAudit.Decimal
