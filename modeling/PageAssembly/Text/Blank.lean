import PageAssembly.Text.Bounds
import PageAssembly.Text.Search

/-!
Blank characters are those with the Unicode property `White_Space`. Words are the longest runs
of characters that are not blank.
-/

namespace PageAssembly.Text

def blankBounds : List Nat :=
  [0x9, 0xe, 0x20, 0x21, 0x85, 0x86, 0xa0, 0xa1, 0x1680, 0x1681, 0x2000, 0x200b, 0x2028, 0x202a,
   0x202f, 0x2030, 0x205f, 0x2060, 0x3000, 0x3001]

def isBlank (c : Char) : Bool :=
  insideBounds blankBounds c

def words (text : List Char) : List (List Char) :=
  (splitWhere isBlank text).filter fun piece => !piece.isEmpty

def trimEnd (text : List Char) : List Char :=
  (text.reverse.dropWhile isBlank).reverse

end PageAssembly.Text
