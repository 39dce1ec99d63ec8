import CostAudit.Decimal.Digits

/-!
# Double precision values, exactly

A double is not a number, infinite, or a whole number times a power of
two. `Shape.ofFloat` reads which from the bits, so that texts can be made
from the exact value.

`nearest` is the rounding behind every double precision operation: the
fraction with fifty-three significant bits closest to a given one, a half
going to the even neighbour. It puts no limit on the exponent, so it
agrees with double precision wherever that neither overflows nor falls
below its least normal number.
-/

namespace CostAudit.Binary64

/-- What a double is. -/
inductive Shape where
  | nan
  | infinite (negative : Bool)
  /-- The number `mantissa * 2 ^ exponent` with a sign; zero has a sign
  too. -/
  | finite (negative : Bool) (mantissa : Nat) (exponent : Int)
  deriving DecidableEq

def scaled (m : Nat) (e : Int) : Rat :=
  if 0 ≤ e then ((m * Nat.pow 2 e.toNat : Nat) : Rat) else mkRat m (Nat.pow 2 (-e).toNat)

/-- The shape of a double: one sign bit, eleven bits of exponent, and
fifty-two bits of mantissa to which a leading one is added unless the
exponent field is zero. -/
def Shape.ofFloat (x : Float) : Shape :=
  let bits := x.toBits.toNat
  let negative := decide (bits / Nat.pow 2 63 = 1)
  let field : Nat := bits / Nat.pow 2 52 % Nat.pow 2 11
  let fraction := bits % Nat.pow 2 52
  if field = 2047 then
    if fraction = 0 then .infinite negative else .nan
  else if field = 0 then .finite negative fraction (-1074)
  else .finite negative (Nat.pow 2 52 + fraction) ((field : Int) - 1075)

/-- The exponent of the last of fifty-three significant bits of a positive
fraction. -/
def lastPlace (q : Rat) : Int :=
  let e : Int := (q.num.natAbs.log2 : Int) - (q.den.log2 : Int) - 52
  if q < scaled (Nat.pow 2 52) e then e - 1 else e

/-- The fraction with fifty-three significant bits nearest to one that is
not negative. -/
def nearest (q : Rat) : Rat :=
  let e := lastPlace q
  scaled (Decimal.roundHalfEven (q / scaled 1 e)).toNat e

/-- A double rounded to the nearest whole number, as text. -/
def roundedText (x : Float) : String :=
  match Shape.ofFloat x with
  | .nan => "NaN"
  | .infinite true => "-inf"
  | .infinite false => "inf"
  | .finite negative m e =>
    (if negative then "-" else "") ++ String.ofList (Decimal.fixed 0 (scaled m e))

end CostAudit.Binary64
