/-!
# JSON values

A JSON value as it stands in a text. The fields of an object keep their
order and their repetitions, since both matter to whoever reads a record
from them. A natural number written in plain digits is told from every
other number, of which only the spelling is kept. A string whose escapes
leave half of a surrogate pair has no text; it may stand where its
contents do not matter.

A record is read from an object by the names of its fields: every field
must be there exactly once, fields of other names are passed over. A
record may also be given as an array of its fields in order. A choice
without contents is its name, or an object with the name as its only key
and null beside it; a choice with contents is an object with the name as
its only key.
-/

namespace CostAudit

/-- A JSON value. -/
inductive Json where
  | null
  | bool (b : Bool)
  | natural (n : Nat)
  /-- Any other number, as spelled. -/
  | number (spelling : List Char)
  | text (s : String)
  /-- A string with half of a surrogate pair in it. -/
  | garbled
  | array (items : List Json)
  /-- The fields in order; a garbled key is `none`. -/
  | object (fields : List (Option String × Json))
  deriving Inhabited

namespace Json

def record (fields : List (String × Json)) : Json :=
  .object (fields.map fun (k, v) => (some k, v))

def word (w : UInt64) : Json := .natural w.toNat

def texts (ss : List String) : Json := .array (ss.map .text)

/-! ## Reading records -/

def bool? : Json → Option Bool
  | .bool b => some b
  | _ => none

def text? : Json → Option String
  | .text s => some s
  | _ => none

/-- The natural number of a JSON value, when it is below a bound. -/
def below? (bound : Nat) : Json → Option Nat
  | .natural n => if n < bound then some n else none
  | _ => none

def word? (v : Json) : Option UInt64 := (v.below? 18446744073709551616).map Nat.toUInt64

/-- The items of a JSON value, each read by itself. -/
def list? {α : Type} (item? : Json → Option α) : Json → Option (List α)
  | .array items => items.mapM item?
  | _ => none

/-- The value beside a key that must occur exactly once. -/
def field? (fields : List (Option String × Json)) (name : String) : Option Json :=
  match fields.filter (·.1 == some name) with
  | [(_, v)] => some v
  | _ => none

/-- The values of the named fields, in the order of the names. -/
def fields? (names : List String) : Json → Option (List Json)
  | .array items => if items.length = names.length then some items else none
  | .object fields =>
    if fields.any (·.1.isNone) then none else names.mapM (field? fields)
  | _ => none

/-- The name of a choice and its contents, if it has any. -/
def choice? : Json → Option (String × Option Json)
  | .text name => some (name, none)
  | .object [(some name, v)] => some (name, some v)
  | _ => none

/-- The name of a choice that must have no contents. -/
def plainChoice? (v : Json) : Option String :=
  match v.choice? with
  | some (name, none) => some name
  | some (name, some .null) => some name
  | _ => none

end Json

end CostAudit
