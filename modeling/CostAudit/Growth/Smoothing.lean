import CostAudit.Scalar

/-!
# Zero-phase smoothing

A series is smoothed by a second-order low-pass filter, run over it once
from the left and once, over the result, from the right. The two passes
cancel each other's lag, so trends of the smoothed series line up with the
series value for value.

A pass starts from the memory the filter would have if its first value had
been going in forever, which keeps the start from ringing. Both ends of
the series are first extended by an odd reflection about the end value,
and the extension is cut off again afterwards. A series too short to be
reflected is left alone.

A filter can also be used by hand: for one input, for a whole pass over a
list, or to be set to the memory that a constant input leaves. Each use
goes on from the memory that the one before it has left; a pass first sets
the memory to its own first value.
-/

namespace CostAudit.Growth

/-- The coefficients of a second-order filter: three for the inputs and
two for the outputs, after a leading one that is left out. -/
structure Coefficients (α : Type) where
  b0 : α
  b1 : α
  b2 : α
  a0 : α
  a1 : α

/-- What a filter remembers from one input to the next. -/
structure Memory (α : Type) where
  first : α
  second : α

namespace Coefficients

variable {α : Type} [Scalar α]

/-- A Butterworth low-pass filter that cuts off at a quarter of the
highest frequency. -/
def lowPass : Coefficients α where
  b0 := 0.09763107293781749
  b1 := 0.19526214587563498
  b2 := 0.09763107293781749
  a0 := -0.9428090415820632
  a1 := 0.3333333333333333

/-- The factor by which a constant input comes out. -/
def constantGain (c : Coefficients α) : α :=
  (c.b0 + c.b1 + c.b2) / (Scalar.one + c.a0 + c.a1)

/-- The memory after a constant input of one that has gone on forever. -/
def unitSettled (c : Coefficients α) : Memory α where
  first := c.b1 + c.b2 - (c.a0 + c.a1) * c.constantGain
  second := c.b2 - c.a1 * c.constantGain

/-- The memory after a constant input that has gone on forever. -/
def settled (c : Coefficients α) (level : α) : Memory α where
  first := c.unitSettled.first * level
  second := c.unitSettled.second * level

/-- The output for one input, and the memory after it. -/
def step (c : Coefficients α) (m : Memory α) (x : α) : α × Memory α :=
  let y := c.b0 * x + m.first
  (y, ⟨c.b1 * x - c.a0 * y + m.second, c.b2 * x - c.a1 * y⟩)

/-- The outputs for a list of inputs, and the memory after them. -/
def feed (c : Coefficients α) (m : Memory α) : List α → List α × Memory α
  | [] => ([], m)
  | x :: xs =>
    let (y, m) := c.step m x
    let (ys, m) := c.feed m xs
    (y :: ys, m)

/-- The outputs for a list of inputs, starting as if the first one had been
going in forever. -/
def pass (c : Coefficients α) (xs : List α) : List α × Memory α :=
  c.feed (c.settled (xs.headD Scalar.zero)) xs

end Coefficients

/-- How many values are reflected at each end. -/
def padding : Nat := 6

/-- The values that follow the first one, reflected about it: the nearest
first. -/
def reflection {α : Type} [Scalar α] : List α → List α
  | [] => []
  | x :: xs => (xs.take padding).map fun y => Scalar.ofNat 2 * x - y

def extended {α : Type} [Scalar α] (xs : List α) : List α :=
  (reflection xs).reverse ++ xs ++ reflection xs.reverse

/-- The series run through a filter from the left and then from the
right. -/
def bothWays {α : Type} [Scalar α] (c : Coefficients α) (xs : List α) : List α :=
  (c.pass (c.pass xs).1.reverse).1.reverse

def smooth {α : Type} [Scalar α] (xs : List α) : List α :=
  if xs.length ≤ padding then xs
  else ((bothWays .lowPass (extended xs)).drop padding).take xs.length

/-! ## A filter at work -/

/-- A filter with what it remembers. -/
structure Filter (α : Type) where
  coefficients : Coefficients α
  memory : Memory α

namespace Filter

variable {α : Type} [Scalar α]

/-- A filter that has not been used. -/
def new (c : Coefficients α) : Filter α := ⟨c, ⟨Scalar.zero, Scalar.zero⟩⟩

/-- The output for one input, and the filter after it. -/
def step (f : Filter α) (x : α) : α × Filter α :=
  let (y, m) := f.coefficients.step f.memory x
  (y, { f with memory := m })

/-- The filter after a constant input that has gone on forever. -/
def reset (f : Filter α) (level : α) : Filter α :=
  { f with memory := f.coefficients.settled level }

/-- The outputs for a list of inputs, and the filter after them. -/
def steps (f : Filter α) : List α → List α × Filter α
  | [] => ([], f)
  | x :: xs =>
    let (y, f) := f.step x
    let (ys, f) := f.steps xs
    (y :: ys, f)

/-- The outputs of a pass over a list, and the filter after it. -/
def pass (f : Filter α) (xs : List α) : List α × Filter α :=
  (f.reset (xs.headD Scalar.zero)).steps xs

end Filter

end CostAudit.Growth
