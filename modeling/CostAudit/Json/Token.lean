import CostAudit.Decimal.Digits

/-!
# JSON tokens

A JSON text is a row of tokens with blanks between them. `Token.chars`
writes a token and `Token.scan` divides a text into tokens; blanks are
skipped, and the text is refused where no token begins or a token breaks
off.

A string is read piece by piece: a piece is a character or, for an escape
that spells half of a surrogate pair, that half. The halves are put
together at the end of the string.
-/

namespace CostAudit.Json

/-- A token. -/
inductive Token where
  | openArray
  | closeArray
  | openObject
  | closeObject
  | comma
  | colon
  | null
  | bool (b : Bool)
  | natural (n : Nat)
  /-- Any other number, as spelled. -/
  | number (spelling : List Char)
  | text (s : String)
  /-- A string with half of a surrogate pair in it. -/
  | garbled
  deriving DecidableEq, Inhabited

/-! ## Writing -/

/-- A hexadecimal digit below sixteen, in lower case. -/
def hexChar (d : Nat) : Char :=
  if d < 10 then Char.ofNat (48 + d) else Char.ofNat (87 + d)

/-- One character of a string. Quotes, backslashes and controls are
escaped, with a letter where there is one. -/
def escaped (c : Char) : List Char :=
  if c = '"' then ['\\', '"']
  else if c = '\\' then ['\\', '\\']
  else if c = '\x08' then ['\\', 'b']
  else if c = '\x0c' then ['\\', 'f']
  else if c = '\n' then ['\\', 'n']
  else if c = '\r' then ['\\', 'r']
  else if c = '\t' then ['\\', 't']
  else if c.toNat < 0x20 then
    ['\\', 'u', '0', '0', hexChar (c.toNat / 16), hexChar (c.toNat % 16)]
  else [c]

def Token.chars : Token → List Char
  | openArray => ['[']
  | closeArray => [']']
  | openObject => ['\x7b']
  | closeObject => ['\x7d']
  | comma => [',']
  | colon => [':']
  | null => ['n', 'u', 'l', 'l']
  | bool true => ['t', 'r', 'u', 'e']
  | bool false => ['f', 'a', 'l', 's', 'e']
  | natural n => Decimal.digits n
  | number spelling => spelling
  | text s => '"' :: s.toList.flatMap escaped ++ ['"']
  | garbled => ['"', '\\', 'u', 'd', '8', '0', '0', '"']

/-! ## Reading words and numbers -/

def isBlank (c : Char) : Bool := c = ' ' || c = '\t' || c = '\n' || c = '\r'

/-- Whether a character can belong to a token without quotes that is
longer than one character. -/
def isBare (c : Char) : Bool :=
  c.isAlphanum || c = '+' || c = '-' || c = '.'

/-- Whether the digits are those of a natural number: at least one, and
no zero in front of others. -/
def isPlainDigits : List Char → Bool
  | [] => false
  | ['0'] => true
  | '0' :: _ => false
  | cs => cs.all Decimal.isDigit

/-- Whether the digits are those of a fraction or an exponent. -/
def isDigits (cs : List Char) : Bool := !cs.isEmpty && cs.all Decimal.isDigit

/-- Whether the characters are the exponent of a number, or nothing. -/
def isExponent : List Char → Bool
  | [] => true
  | e :: cs =>
    (e == 'e' || e == 'E') &&
      match cs with
      | '+' :: ds => isDigits ds
      | '-' :: ds => isDigits ds
      | ds => isDigits ds

/-- Whether the characters are the fraction and the exponent of a number,
either of which may be missing. -/
def isNumberTail : List Char → Bool
  | '.' :: cs =>
    isDigits (cs.takeWhile Decimal.isDigit) && isExponent (cs.dropWhile Decimal.isDigit)
  | cs => isExponent cs

def isNumber (cs : List Char) : Bool :=
  let unsigned := match cs with
    | '-' :: ds => ds
    | ds => ds
  isPlainDigits (unsigned.takeWhile Decimal.isDigit) &&
    isNumberTail (unsigned.dropWhile Decimal.isDigit)

def Token.ofBare (cs : List Char) : Option Token :=
  if cs = ['n', 'u', 'l', 'l'] then some .null
  else if cs = ['t', 'r', 'u', 'e'] then some (.bool true)
  else if cs = ['f', 'a', 'l', 's', 'e'] then some (.bool false)
  else if isPlainDigits cs then some (.natural (Decimal.value cs))
  else if isNumber cs then some (.number cs)
  else none

/-! ## Reading strings -/

/-- A piece of a string: a character, or half of a surrogate pair. -/
inductive Piece where
  | char (c : Char)
  | half (code : Nat)
  deriving DecidableEq

/-- The piece that an escape with a code spells. -/
def Piece.ofCode (code : Nat) : Piece :=
  if 0xD800 ≤ code && code ≤ 0xDFFF then .half code else .char (Char.ofNat code)

/-- The character that two halves make, if they belong together. -/
def joinHalves (high low : Nat) : Option Char :=
  if high < 0xDC00 && 0xDC00 ≤ low then
    some (Char.ofNat (0x10000 + (high - 0xD800) * 0x400 + (low - 0xDC00)))
  else none

/-- The characters that the pieces make, unless a half is left over. -/
def joinPieces : List Piece → Option (List Char)
  | [] => some []
  | .char c :: ps => (joinPieces ps).map (c :: ·)
  | .half high :: .half low :: ps => do
    let c ← joinHalves high low
    let cs ← joinPieces ps
    return c :: cs
  | .half _ :: _ => none

def Token.ofPieces (ps : List Piece) : Token :=
  match joinPieces ps with
  | some cs => .text (String.ofList cs)
  | none => .garbled

/-- The character that a letter after a backslash stands for. -/
def unescape? (c : Char) : Option Char :=
  if c = '"' then some '"'
  else if c = '\\' then some '\\'
  else if c = '/' then some '/'
  else if c = 'b' then some '\x08'
  else if c = 'f' then some '\x0c'
  else if c = 'n' then some '\n'
  else if c = 'r' then some '\r'
  else if c = 't' then some '\t'
  else none

def hexValue? (c : Char) : Option Nat :=
  let n := c.toNat
  if 48 ≤ n && n ≤ 57 then some (n - 48)
  else if 97 ≤ n && n ≤ 102 then some (n - 87)
  else if 65 ≤ n && n ≤ 70 then some (n - 55)
  else none

/-! ## Dividing a text into tokens -/

/-- Where a scan stands. What has been read of an unfinished token is kept
last character first. -/
inductive Scan where
  | gap
  | bare (read : List Char)
  | string (read : List Piece)
  | escape (read : List Piece)
  /-- In an escape with a code, with some digits left to come. -/
  | code (read : List Piece) (left value : Nat)

def Token.ofMark (c : Char) : Option Token :=
  if c = '[' then some .openArray
  else if c = ']' then some .closeArray
  else if c = '\x7b' then some .openObject
  else if c = '\x7d' then some .closeObject
  else if c = ',' then some .comma
  else if c = ':' then some .colon
  else none

/-- One character read between tokens, with the tokens read so far, last
token first. -/
def Scan.fromGap (tokens : List Token) (c : Char) : Option (List Token × Scan) :=
  if isBlank c then some (tokens, .gap)
  else if c = '"' then some (tokens, .string [])
  else if isBare c then some (tokens, .bare [c])
  else (Token.ofMark c).map fun t => (t :: tokens, .gap)

/-- One character read, with the tokens read so far, last token first. -/
def Scan.step : List Token × Scan → Char → Option (List Token × Scan)
  | (tokens, .gap), c => fromGap tokens c
  | (tokens, .bare read), c =>
    if isBare c then some (tokens, .bare (c :: read))
    else (Token.ofBare read.reverse).bind fun t => fromGap (t :: tokens) c
  | (tokens, .string read), c =>
    if c = '"' then some (Token.ofPieces read.reverse :: tokens, .gap)
    else if c = '\\' then some (tokens, .escape read)
    else if c.toNat < 0x20 then none
    else some (tokens, .string (.char c :: read))
  | (tokens, .escape read), c =>
    if c = 'u' then some (tokens, .code read 4 0)
    else (unescape? c).map fun d => (tokens, .string (.char d :: read))
  | (tokens, .code read left value), c =>
    (hexValue? c).map fun d =>
      let value := 16 * value + d
      if left ≤ 1 then (tokens, .string (Piece.ofCode value :: read))
      else (tokens, .code read (left - 1) value)

/-- The tokens of a scan that has come to the end of the text. -/
def Scan.finish : List Token × Scan → Option (List Token)
  | (tokens, .gap) => some tokens.reverse
  | (tokens, .bare read) => (Token.ofBare read.reverse).map fun t => (t :: tokens).reverse
  | _ => none

def Token.scan (cs : List Char) : Option (List Token) :=
  (cs.foldlM Scan.step ([], .gap)).bind Scan.finish

end CostAudit.Json
