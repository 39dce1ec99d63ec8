/-!
# Styled text

A terminal shows text in a style between two escape sequences: one that
turns the style on, and one that resets every style. A text that already
holds a reset would lose the style there, so the style is turned on again
after each of them. `visible` gives back what a terminal shows.
-/

namespace CostAudit.Text

/-- The styles in use. -/
inductive Style where
  | green
  | red
  | yellow
  | bold
  | boldGreen
  | boldRed
  | boldYellow
  deriving DecidableEq

/-- The character that begins an escape sequence. -/
def esc : Char := '\x1b'

def Style.codes : Style → List Char
  | green => ['3', '2']
  | red => ['3', '1']
  | yellow => ['3', '3']
  | bold => ['1']
  | boldGreen => ['1', ';', '3', '2']
  | boldRed => ['1', ';', '3', '1']
  | boldYellow => ['1', ';', '3', '3']

def Style.start (s : Style) : List Char := esc :: '[' :: s.codes ++ ['m']

def reset : List Char := [esc, '[', '0', 'm']

/-- The text with a sequence after each reset in it. -/
def afterResets (start : List Char) : List Char → List Char
  | [] => []
  | '\x1b' :: '[' :: '0' :: 'm' :: cs => reset ++ start ++ afterResets start cs
  | c :: cs => c :: afterResets start cs

/-- The text in a style, or as it is when colours are off. -/
def paint (colours : Bool) (s : Style) (cs : List Char) : List Char :=
  if colours then s.start ++ afterResets s.start cs ++ reset else cs

/-- What a terminal shows of a text, from a point inside or outside an
escape sequence. A sequence ends with the letter `m`. -/
def visibleFrom (inside : Bool) : List Char → List Char
  | [] => []
  | c :: cs =>
    if inside then visibleFrom (c != 'm') cs
    else if c = esc then visibleFrom true cs
    else c :: visibleFrom false cs

def visible (cs : List Char) : List Char := visibleFrom false cs

end CostAudit.Text
