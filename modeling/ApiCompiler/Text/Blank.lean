/-!
# Blank characters and trimming

The blank characters of Unicode (white space, line and paragraph separators, and the four
information separators of ASCII), and removal of blanks at both ends of a text.
-/

set_option autoImplicit false

namespace ApiCompiler.Text

/-- Blank characters: those of bidirectional class white space, segment or paragraph separator, and
the space separators. -/
def isBlank (c : Char) : Bool :=
  let n := c.toNat
  (9 ≤ n && n ≤ 13) || (28 ≤ n && n ≤ 32) || n == 0x85 || n == 0xA0 || n == 0x1680 ||
    (0x2000 ≤ n && n ≤ 0x200A) || n == 0x2028 || n == 0x2029 || n == 0x202F || n == 0x205F ||
    n == 0x3000

/-- Drops the longest final part whose characters all satisfy `p`. -/
def dropEndWhile (p : Char → Bool) (cs : List Char) : List Char :=
  (cs.reverse.dropWhile p).reverse

/-- Drops blanks at both ends. -/
def trimChars (cs : List Char) : List Char :=
  dropEndWhile isBlank (cs.dropWhile isBlank)

/-- Drops blanks at both ends. -/
def trim (s : String) : String :=
  String.ofList (trimChars s.toList)

/-- Splits at every occurrence of `sep`; there is always at least one part. -/
def splitChars (sep : Char) : List Char → List (List Char)
  | [] => [[]]
  | c :: cs =>
    if c = sep then [] :: splitChars sep cs
    else match splitChars sep cs with
      | [] => [[c]]
      | part :: parts => (c :: part) :: parts

/-- Splits at every occurrence of `sep`; there is always at least one part. -/
def split (sep : Char) (s : String) : List String :=
  (splitChars sep s.toList).map String.ofList

end ApiCompiler.Text
