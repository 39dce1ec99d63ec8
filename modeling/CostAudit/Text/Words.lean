/-!
# Words and wrapping

A character is blank when it has the Unicode property `White_Space`. A
word is a maximal run of characters that are not blank; `words` gives the
words of a text in order, and `trim` removes the blanks around a text.

A text is wrapped by filling: a chunk takes the next word as long as it
stays within the width, so a chunk wider than that is a single long word.
Words of a chunk are set one space apart, whatever blanks stood between
them.
-/

namespace CostAudit.Text

/-- Whether a character has the property `White_Space`. -/
def isBlank (c : Char) : Bool :=
  let n := c.toNat
  (0x9 ≤ n && n ≤ 0xD) || n == 0x20 || n == 0x85 || n == 0xA0 || n == 0x1680
    || (0x2000 ≤ n && n ≤ 0x200A) || n == 0x2028 || n == 0x2029 || n == 0x202F
    || n == 0x205F || n == 0x3000

def trim (cs : List Char) : List Char :=
  ((cs.dropWhile isBlank).reverse.dropWhile isBlank).reverse

abbrev Word := List Char

theorem length_dropWhile_le (p : Char → Bool) (cs : List Char) :
    (cs.dropWhile p).length ≤ cs.length := by
  induction cs with
  | nil => exact Nat.le_refl _
  | cons c cs ih =>
    rw [List.dropWhile_cons]
    split
    · exact Nat.le_succ_of_le ih
    · exact Nat.le_refl _

/-- The words of a text, in order. -/
def words : List Char → List Word
  | [] => []
  | c :: cs =>
    if isBlank c then words cs
    else (c :: cs.takeWhile (!isBlank ·)) :: words (cs.dropWhile (!isBlank ·))
termination_by cs => cs.length
decreasing_by
  · exact Nat.lt_succ_self _
  · exact Nat.lt_succ_of_le (length_dropWhile_le _ _)

/-! ## Wrapping -/

def unwords : List Word → List Char
  | [] => []
  | [w] => w
  | w :: ws => w ++ ' ' :: unwords ws

/-- The width of a chunk: its words and the spaces between them. -/
def chunkWidth (chunk : List Word) : Nat := (unwords chunk).length

def fillFrom (width : Nat) (chunk : List Word) : List Word → List (List Word)
  | [] => [chunk]
  | w :: ws =>
    if width < chunkWidth chunk + 1 + w.length then chunk :: fillFrom width [w] ws
    else fillFrom width (chunk ++ [w]) ws

def fill (width : Nat) : List Word → List (List Word)
  | [] => []
  | w :: ws => fillFrom width [w] ws

def wrap (width : Nat) (cs : List Char) : List (List Char) :=
  (fill width (words cs)).map unwords

end CostAudit.Text
