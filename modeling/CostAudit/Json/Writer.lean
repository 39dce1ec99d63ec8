import CostAudit.Json
import CostAudit.Json.Token

/-!
# Writing JSON

`Json.compact` writes a value without any blanks. `Json.pretty` gives
every item and every field a line of its own, indented by two spaces for
each level, and writes an empty array or object on one line.
-/

namespace CostAudit.Json

def keyChars : Option String → List Char
  | some k => (Token.text k).chars
  | none => Token.garbled.chars

/-! ## Without blanks -/

mutual

def compactChars : Json → List Char
  | .null => Token.null.chars
  | .bool b => (Token.bool b).chars
  | .natural n => (Token.natural n).chars
  | .number spelling => spelling
  | .text s => (Token.text s).chars
  | .garbled => Token.garbled.chars
  | .array items => '[' :: compactItems items ++ [']']
  | .object fields => '\x7b' :: compactFields fields ++ ['\x7d']

def compactItems : List Json → List Char
  | [] => []
  | [v] => compactChars v
  | v :: w :: vs => compactChars v ++ ',' :: compactItems (w :: vs)

def compactFields : List (Option String × Json) → List Char
  | [] => []
  | [(k, v)] => keyChars k ++ ':' :: compactChars v
  | (k, v) :: f :: fs => keyChars k ++ ':' :: compactChars v ++ ',' :: compactFields (f :: fs)

end

def compact (v : Json) : String := String.ofList v.compactChars

/-! ## On lines -/

def newline (level : Nat) : List Char := '\n' :: List.replicate (2 * level) ' '

mutual

/-- The characters of a value that stands at some level. -/
def prettyChars (level : Nat) : Json → List Char
  | .null => Token.null.chars
  | .bool b => (Token.bool b).chars
  | .natural n => (Token.natural n).chars
  | .number spelling => spelling
  | .text s => (Token.text s).chars
  | .garbled => Token.garbled.chars
  | .array [] => ['[', ']']
  | .array (v :: vs) => '[' :: prettyItems (level + 1) (v :: vs) ++ newline level ++ [']']
  | .object [] => ['\x7b', '\x7d']
  | .object (f :: fs) =>
    '\x7b' :: prettyFields (level + 1) (f :: fs) ++ newline level ++ ['\x7d']

/-- The items of an array, each on a line at some level. -/
def prettyItems (level : Nat) : List Json → List Char
  | [] => []
  | [v] => newline level ++ prettyChars level v
  | v :: w :: vs =>
    newline level ++ prettyChars level v ++ ',' :: prettyItems level (w :: vs)

/-- The fields of an object, each on a line at some level. -/
def prettyFields (level : Nat) : List (Option String × Json) → List Char
  | [] => []
  | [(k, v)] => newline level ++ keyChars k ++ ':' :: ' ' :: prettyChars level v
  | (k, v) :: f :: fs =>
    newline level ++ keyChars k ++ ':' :: ' ' :: prettyChars level v ++
      ',' :: prettyFields level (f :: fs)

end

def pretty (v : Json) : String := String.ofList (v.prettyChars 0)

end CostAudit.Json
