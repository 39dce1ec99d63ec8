import CostAudit.Text.Words

/-!
# Safety flags

A routine claims guarantees by flags: that its memory and its CPU use are
bounded and declared, that its wall-clock time is bounded, that it does no
uncontrolled I/O. A `FlagSet` is a byte with one bit for each flag; bits
beyond the four flags may be present in a set read from outside, count in
comparisons, and have no name.

A flag name is read without regard to the blanks around it and to the case
of ASCII letters (`Flag.ofName`). A list of names is read from the left
and stops at the first name that denotes no flag (`FlagSet.ofNames`).
-/

namespace CostAudit

/-- A guarantee that a routine claims to keep. -/
inductive Flag where
  | memSafe
  | cpuSafe
  | timeSafe
  | ioSafe
  deriving DecidableEq, Inhabited

/-- A name that denotes no flag, as it was given. -/
structure UnknownName where
  name : String
  deriving DecidableEq

def UnknownName.message (e : UnknownName) : String :=
  "unknown safety flag '" ++ e.name ++
    "' (expected one of MemSafe, CPUSafe, TimeSafe, IOSafe)"

namespace Flag

/-- Every flag, in the order in which sets list them. -/
def all : List Flag := [memSafe, cpuSafe, timeSafe, ioSafe]

def name : Flag → String
  | memSafe => "MemSafe"
  | cpuSafe => "CPUSafe"
  | timeSafe => "TimeSafe"
  | ioSafe => "IOSafe"

def bit : Flag → UInt8
  | memSafe => 1
  | cpuSafe => 2
  | timeSafe => 4
  | ioSafe => 8

/-- An ASCII letter in lower case; any other character as it is. -/
def foldCase (c : Char) : Char :=
  if 65 ≤ c.toNat && c.toNat ≤ 90 then Char.ofNat (c.toNat + 32) else c

/-- Whether a text denotes a flag: the flag's name up to the case of ASCII
letters and the blanks around it. -/
def denotes (text : String) (f : Flag) : Bool :=
  (Text.trim text.toList).map foldCase = f.name.toList.map foldCase

def ofName (text : String) : Except UnknownName Flag :=
  match all.find? (denotes text) with
  | some f => .ok f
  | none => .error ⟨text⟩

theorem mem_all (f : Flag) : f ∈ all := by
  cases f <;> decide

end Flag

/-- A set of flags, one bit each. -/
structure FlagSet where
  bits : UInt8
  deriving DecidableEq, Inhabited

namespace FlagSet

def empty : FlagSet := ⟨0⟩

def singleton (f : Flag) : FlagSet := ⟨f.bit⟩

def union (a b : FlagSet) : FlagSet := ⟨a.bits ||| b.bits⟩

def insert (s : FlagSet) (f : Flag) : FlagSet := ⟨s.bits ||| f.bit⟩

def ofList (fs : List Flag) : FlagSet := fs.foldl insert empty

def all : FlagSet := ofList Flag.all

def has (s : FlagSet) (f : Flag) : Bool := s.bits &&& f.bit != 0

/-- Whether every bit of the second set is in the first. -/
def contains (s t : FlagSet) : Bool := s.bits &&& t.bits == t.bits

def missing (s required : FlagSet) : FlagSet := ⟨required.bits &&& ~~~s.bits⟩

def isEmpty (s : FlagSet) : Bool := s.bits == 0

/-- The flags of the set, in order. -/
def members (s : FlagSet) : List Flag := Flag.all.filter s.has

/-- The names of the set, or `(none)` for the empty set. A set of bits
without a name has the empty text. -/
def text (s : FlagSet) : String :=
  if s.isEmpty then "(none)" else " | ".intercalate (s.members.map Flag.name)

/-- The set that a list of names denotes, or the first name that denotes
no flag. -/
def ofNames (names : List String) : Except UnknownName FlagSet :=
  names.foldlM (fun s name => (Flag.ofName name).map s.insert) empty

end FlagSet

end CostAudit
