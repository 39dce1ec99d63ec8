import CostAudit.Json
import CostAudit.Json.Token

/-!
# Reading JSON

The tokens of a text are put together to a value from left to right. The
arrays and objects that are still open wait on a stack, so a text may nest
as deeply as it likes. `Json.read?` accepts a text that is one value with
blanks around it, and nothing else.
-/

namespace CostAudit.Json

abbrev Key := Option String

/-- An array or object that is still open. What it holds so far is kept
last entry first. -/
inductive Frame where
  | array (items : List Json)
  /-- An object with a key whose value is to come. -/
  | member (fields : List (Key × Json)) (key : Key)

/-- What may come next. -/
inductive Build where
  /-- A value, or the end of an array that has just been opened. -/
  | value (stack : List Frame) (mayClose : Bool)
  /-- A key, or the end of an object that has just been opened. -/
  | key (stack : List Frame) (fields : List (Key × Json)) (mayClose : Bool)
  | colon (stack : List Frame) (fields : List (Key × Json)) (key : Key)
  | afterItem (stack : List Frame) (items : List Json)
  | afterField (stack : List Frame) (fields : List (Key × Json))
  | done (v : Json)

def Build.deliver (v : Json) : List Frame → Build
  | [] => .done v
  | .array items :: stack => .afterItem stack (v :: items)
  | .member fields k :: stack => .afterField stack ((k, v) :: fields)

/-- The value of a token that is a value by itself. -/
def Token.scalar? : Token → Option Json
  | .null => some .null
  | .bool b => some (.bool b)
  | .natural n => some (.natural n)
  | .number spelling => some (.number spelling)
  | .text s => some (.text s)
  | .garbled => some .garbled
  | _ => none

def Build.step : Build → Token → Option Build
  | .value stack _, .openArray => some (.value (.array [] :: stack) true)
  | .value stack _, .openObject => some (.key stack [] true)
  | .value (.array items :: stack) true, .closeArray =>
    some (deliver (.array items.reverse) stack)
  | .value stack _, t => t.scalar?.map fun v => deliver v stack
  | .key stack fields _, .text k => some (.colon stack fields (some k))
  | .key stack fields _, .garbled => some (.colon stack fields none)
  | .key stack fields true, .closeObject => some (deliver (.object fields.reverse) stack)
  | .colon stack fields k, .colon => some (.value (.member fields k :: stack) false)
  | .afterItem stack items, .comma => some (.value (.array items :: stack) false)
  | .afterItem stack items, .closeArray => some (deliver (.array items.reverse) stack)
  | .afterField stack fields, .comma => some (.key stack fields false)
  | .afterField stack fields, .closeObject => some (deliver (.object fields.reverse) stack)
  | _, _ => none

def ofTokens? (ts : List Token) : Option Json := do
  match ← ts.foldlM Build.step (.value [] false) with
  | .done v => some v
  | _ => none

def read? (s : String) : Option Json := (Token.scan s.toList).bind ofTokens?

end CostAudit.Json
