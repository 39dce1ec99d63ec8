import CostAudit.Scalar

/-!
# Setup time

A call costs something before it does any work. The cost is read off a
line through the times: times are fitted by `a + b * n` with least
squares, every deviation taken relative to the time itself, so that small
sizes pin down `a`. The fitted `a` counts as the setup time, kept between
zero and the least time seen.

A time that is not positive or not finite carries no information and is
left out of the fit. Two different sizes are needed for a line; otherwise
the setup time is zero.
-/

namespace CostAudit.Growth

/-- A time taken at a size. -/
structure Reading (α : Type) where
  time : α
  size : Nat

variable {α : Type} [Scalar α]

def Reading.informative (r : Reading α) : Bool :=
  !Scalar.le r.time Scalar.zero && Scalar.isFinite r.time

def hasTwoSizes : List (Reading α) → Bool
  | [] => false
  | r :: rs => rs.any (·.size != r.size)

/-- The weighted sums of a fit: of one, of sizes, of times, of squared
sizes and of sizes times times. -/
structure Sums (α : Type) where
  s : α
  sx : α
  sy : α
  sxx : α
  sxy : α

/-- The sums with one more reading, whose weight is the inverse square of
its time. -/
def Sums.add (a : Sums α) (r : Reading α) : Sums α :=
  let x : α := Scalar.ofNat r.size
  let w := Scalar.one / (r.time * r.time)
  { s := a.s + w
    sx := a.sx + w * x
    sy := a.sy + w * r.time
    sxx := a.sxx + w * x * x
    sxy := a.sxy + w * x * r.time }

def Sums.of (rs : List (Reading α)) : Sums α :=
  rs.foldl Sums.add ⟨Scalar.zero, Scalar.zero, Scalar.zero, Scalar.zero, Scalar.zero⟩

/-- The determinant of the fit; positive when the sizes differ. -/
def Sums.det (a : Sums α) : α := a.s * a.sxx - a.sx * a.sx

/-- The value of the fitted line at size zero. -/
def Sums.intercept (a : Sums α) : α := (a.sxx * a.sy - a.sx * a.sxy) / a.det

/-- The least value of a list. -/
def least : List α → α
  | [] => Scalar.zero
  | x :: xs => xs.foldl Scalar.smaller x

def setupTime (rs : List (Reading α)) : α :=
  let used := rs.filter Reading.informative
  let sums := Sums.of used
  if !hasTwoSizes used then Scalar.zero
  else if Scalar.le sums.det Scalar.zero then Scalar.zero
  else
    let floor := least (rs.map Reading.time)
    Scalar.clamp Scalar.zero (Scalar.larger floor Scalar.zero) sums.intercept

end CostAudit.Growth
