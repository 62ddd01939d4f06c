/-!
# Reading positions in a YAML text

What is left of a text, with the line and column that it starts at. Beyond the end stands the null
character, which no text of this format contains.
-/

set_option autoImplicit false

namespace ApiCompiler.Yaml

/-- A reading position. -/
structure Cursor where
  rest : List Char
  index : Nat := 0
  line : Nat := 0
  column : Nat := 0

/-- A character that ends a line. -/
def isBreak (c : Char) : Bool :=
  c == '\n' || c == '\r' || c.toNat == 0x85 || c.toNat == 0x2028 || c.toNat == 0x2029

/-- The end of a line or of the text. -/
def isLineEnd (c : Char) : Bool := c.toNat == 0 || isBreak c

/-- A blank, a tab, or the end of a line or of the text. -/
def isWordEnd (c : Char) : Bool := c == ' ' || c == '\t' || isLineEnd c

namespace Cursor

/-- The character `n` places ahead. -/
def peek (c : Cursor) (n : Nat) : Char := (c.rest[n]?).getD (Char.ofNat 0)

def head (c : Cursor) : Char := c.peek 0

/-- The position behind the next character. A carriage return in front of a line feed does not end
the line, and a byte order mark takes no column. -/
def step (c : Cursor) : Cursor :=
  match c.rest with
  | [] => c
  | x :: rest =>
    if isBreak x && !(x == '\r' && rest.head? == some '\n') then
      { rest, index := c.index + 1, line := c.line + 1, column := 0 }
    else
      { rest, index := c.index + 1, line := c.line,
        column := if x.toNat = 0xFEFF then c.column else c.column + 1 }

/-- The position `n` characters ahead. -/
def skip : Nat → Cursor → Cursor
  | 0, c => c
  | n + 1, c => skip n c.step

/-- The characters that satisfy a condition, and the position behind them. -/
def span (p : Char → Bool) (c : Cursor) : List Char × Cursor :=
  let taken := c.rest.takeWhile p
  (taken, c.skip taken.length)

/-- The position behind the characters that satisfy a condition. -/
def skipWhile (p : Char → Bool) (c : Cursor) : Cursor := (c.span p).2

/-- Reads one line break, if there is one; all but the two separators count as a line feed. -/
def lineBreak (c : Cursor) : List Char × Cursor :=
  let x := c.head
  if x = '\r' ∧ c.peek 1 = '\n' then (['\n'], c.skip 2)
  else if x = '\r' ∨ x = '\n' ∨ x.toNat = 0x85 then (['\n'], c.step)
  else if isBreak x then ([x], c.step)
  else ([], c)

/-- Whether three hyphens or three points stand here as a word of their own. -/
def atDocumentMark (c : Cursor) : Bool :=
  let three := c.rest.take 3
  (three == ['-', '-', '-'] || three == ['.', '.', '.']) && isWordEnd (c.peek 3)

end Cursor

end ApiCompiler.Yaml
