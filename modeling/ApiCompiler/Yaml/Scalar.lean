import ApiCompiler.Json.Reader
import ApiCompiler.Yaml.Cursor

/-!
# Scalars of a YAML text

Reading of plain, quoted and block scalars. Line breaks inside a scalar are folded: a single one
becomes a blank, of several the first is left out. Every loop carries a bound that the length of the
text never exceeds.
-/

set_option autoImplicit false

namespace ApiCompiler.Yaml

/-- What a line break and the empty lines behind it become inside a folded scalar. -/
def foldBreaks (first breaks : List Char) : List Char :=
  if first ≠ ['\n'] then first ++ breaks
  else if breaks = [] then [' ']
  else breaks

/-- Empty lines inside a plain scalar; nothing when a document mark ends the scalar. -/
def plainBreaks : Nat → Cursor → List Char → Option (List Char) × Cursor
  | 0, c, acc => (some acc, c)
  | bound + 1, c, acc =>
    if c.head = ' ' then plainBreaks bound c.step acc
    else if isBreak c.head then
      let (b, c) := c.lineBreak
      if c.atDocumentMark then (none, c) else plainBreaks bound c (acc ++ b)
    else (some acc, c)

/-- What a gap between two words of a plain scalar stands for, the position behind the gap, and
whether the gap spans lines. There is no text when the scalar ends at the gap. -/
def plainGap (c : Cursor) : List Char × Cursor × Bool :=
  let (blanks, c) := c.span (· == ' ')
  if isBreak c.head then
    let (first, c) := c.lineBreak
    if c.atDocumentMark then ([], c, true)
    else match plainBreaks (c.rest.length + 1) c [] with
      | (none, c) => ([], c, true)
      | (some breaks, c) => (foldBreaks first breaks, c, true)
  else (blanks, c, false)

def plainWordLength (inFlow : Bool) : List Char → Nat
  | [] => 0
  | x :: rest =>
    let next := (rest.head?).getD (Char.ofNat 0)
    let flowMark (c : Char) := ",?[]\x7b\x7d".toList.contains c
    if isWordEnd x then 0
    else if x = ':' ∧ (isWordEnd next ∨ (inFlow ∧ ",[]\x7b\x7d".toList.contains next)) then 0
    else if inFlow ∧ flowMark x then 0
    else plainWordLength inFlow rest + 1

/-- Reads a plain scalar: its text, the position behind it, and whether a key may stand there. -/
def plainScalar (inFlow : Bool) (indent : Int) :
    Nat → Cursor → List Char → List Char → Bool → List Char × Cursor × Bool
  | 0, c, _, acc, keyAllowed => (acc, c, keyAllowed)
  | bound + 1, c, gap, acc, keyAllowed =>
    if c.head = '#' then (acc, c, keyAllowed)
    else
      let n := plainWordLength inFlow c.rest
      if n = 0 then (acc, c, keyAllowed)
      else
        let acc := acc ++ gap ++ c.rest.take n
        let (gap, c, spansLines) := plainGap (c.skip n)
        if gap = [] ∨ c.head = '#' ∨ (!inFlow ∧ (c.column : Int) < indent) then
          (acc, c, spansLines)
        else plainScalar inFlow indent bound c gap acc spansLines

def doubleEscapes : List (Char × Nat) :=
  [('0', 0), ('a', 7), ('b', 8), ('t', 9), ('\t', 9), ('n', 10), ('v', 11), ('f', 12), ('r', 13),
    ('e', 27), (' ', 32), ('"', 34), ('\\', 92), ('/', 47), ('N', 0x85), ('_', 0xA0),
    ('L', 0x2028), ('P', 0x2029)]

def escapeWidth (c : Char) : Option Nat :=
  if c = 'x' then some 2 else if c = 'u' then some 4 else if c = 'U' then some 8 else none

/-- Empty lines inside a quoted scalar; a document mark is not allowed there. -/
def quotedEmptyLines : Nat → Cursor → List Char → Option (List Char × Cursor)
  | 0, _, _ => none
  | bound + 1, c, acc =>
    if c.atDocumentMark then none
    else
      let c := c.skipWhile fun x => x == ' ' || x == '\t'
      if isBreak c.head then
        let (b, c) := c.lineBreak
        quotedEmptyLines bound c (acc ++ b)
      else some (acc, c)

def quotedGap (c : Cursor) : Option (List Char × Cursor) :=
  let (blanks, c) := c.span fun x => x == ' ' || x == '\t'
  if c.head.toNat = 0 then none
  else if isBreak c.head then
    let (first, c) := c.lineBreak
    (quotedEmptyLines (c.rest.length + 2) c []).map fun (breaks, c) => (foldBreaks first breaks, c)
  else some (blanks, c)

/-- An escape between double quotes, at the position behind the backslash. -/
def readEscape (c : Cursor) : Option (List Char × Cursor) :=
  let x := c.head
  match doubleEscapes.lookup x with
  | some n => if c.rest = [] then none else some ([Char.ofNat n], c.step)
  | none =>
    match escapeWidth x with
    | some width =>
      let digits := c.step.rest.take width
      if digits.length = width then
        (Json.hexNumber? digits).map fun n => ([Char.ofNat n], c.skip (width + 1))
      else none
    | none =>
      if isBreak x then
        let c := c.lineBreak.2
        quotedEmptyLines (c.rest.length + 2) c []
      else none

def quotedScalar (quote : Char) : Nat → Cursor → List Char → Option (List Char × Cursor)
  | 0, _, _ => none
  | bound + 1, c, acc =>
    let x := c.head
    if c.rest = [] then none
    else if x = quote then
      if quote = '\'' ∧ c.peek 1 = '\'' then quotedScalar quote bound (c.skip 2) ('\'' :: acc)
      else some (acc.reverse, c.step)
    else if x = '\\' ∧ quote = '"' then
      match readEscape c.step with
      | some (cs, c) => quotedScalar quote bound c (cs.reverse ++ acc)
      | none => none
    else if isWordEnd x then
      match quotedGap c with
      | some (cs, c) => quotedScalar quote bound c (cs.reverse ++ acc)
      | none => none
    else quotedScalar quote bound c.step (x :: acc)

/-- What becomes of the line breaks at the end of a block scalar. -/
inductive Chomping where
  | clip | strip | keep
  deriving DecidableEq, Repr

/-- The header of a block scalar: its chomping and its indentation, each if given. -/
def blockHeader (c : Cursor) : Option (Chomping × Option Nat × Cursor) :=
  let sign? (c : Cursor) : Option Chomping :=
    if c.head = '+' then some .keep else if c.head = '-' then some .strip else none
  let digit? (c : Cursor) : Option Nat :=
    if Number.isDigit c.head then some (Number.digitValue c.head) else none
  let (chomping, width, c) :=
    match sign? c with
    | some chomping =>
      let c := c.step
      match digit? c with
      | some n => (chomping, some n, c.step)
      | none => (chomping, none, c)
    | none =>
      match digit? c with
      | some n =>
        let c := c.step
        match sign? c with
        | some chomping => (chomping, some n, c.step)
        | none => (.clip, some n, c)
      | none => (.clip, none, c)
  if width = some 0 ∨ !(c.head = ' ' ∨ isLineEnd c.head) then none
  else some (chomping, width, c)

def restOfLine (c : Cursor) : Option Cursor :=
  let c := c.skipWhile (· == ' ')
  let c := if c.head = '#' then c.skipWhile fun x => !isLineEnd x else c
  if isLineEnd c.head then some c.lineBreak.2 else none

/-- Empty lines in front of a block scalar, with the greatest column reached. -/
def blockLead : Nat → Cursor → List Char → Nat → List Char × Nat × Cursor
  | 0, c, acc, widest => (acc, widest, c)
  | bound + 1, c, acc, widest =>
    if c.head = ' ' then
      let c := c.step
      blockLead bound c acc (max widest c.column)
    else if isBreak c.head then
      let (b, c) := c.lineBreak
      blockLead bound c (acc ++ b) widest
    else (acc, widest, c)

def skipIndent (indent : Nat) (c : Cursor) : Cursor :=
  let blanks := (c.rest.takeWhile (· == ' ')).length
  c.skip (min blanks (indent - c.column))

def blockBreaks (indent : Nat) : Nat → Cursor → List Char → List Char × Cursor
  | 0, c, acc => (acc, c)
  | bound + 1, c, acc =>
    let c := skipIndent indent c
    if isBreak c.head then
      let (b, c) := c.lineBreak
      blockBreaks indent bound c (acc ++ b)
    else (acc, c)

/-- The lines of a block scalar: its text, the last line break and the empty lines behind it. -/
def blockLines (folded : Bool) (indent : Nat) :
    Nat → Cursor → List Char → List Char → List Char × List Char × List Char × Cursor
  | 0, c, breaks, acc => (acc, [], breaks, c)
  | bound + 1, c, breaks, acc =>
    if c.column = indent ∧ c.rest ≠ [] then
      let indented := c.head = ' ' ∨ c.head = '\t'
      let (line, c) := c.span fun x => !isLineEnd x
      let (last, c) := c.lineBreak
      let acc := acc ++ breaks ++ line
      let (breaks, c) := blockBreaks indent (c.rest.length + 1) c []
      if c.column = indent ∧ c.rest ≠ [] then
        let joint :=
          if folded ∧ last = ['\n'] ∧ ¬ indented ∧ c.head ≠ ' ' ∧ c.head ≠ '\t' then
            if breaks = [] then [' '] else []
          else last
        blockLines folded indent bound c breaks (acc ++ joint)
      else (acc, last, breaks, c)
    else (acc, [], breaks, c)

def blockScalar (folded : Bool) (indent : Int) (c : Cursor) : Option (List Char × Cursor) :=
  match blockHeader c with
  | none => none
  | some (chomping, width, c) =>
    match restOfLine c with
    | none => none
    | some c =>
      let least := max 1 (indent + 1).toNat
      let bound := c.rest.length + 1
      let (breaks, at_, c) :=
        match width with
        | some n =>
          let at_ := least + n - 1
          let (breaks, c) := blockBreaks at_ bound c []
          (breaks, at_, c)
        | none =>
          let (breaks, widest, c) := blockLead bound c [] 0
          (breaks, max least widest, c)
      let (text, last, breaks, c) := blockLines folded at_ bound c breaks []
      let text := if chomping = .strip then text else text ++ last
      some (if chomping = .keep then text ++ breaks else text, c)

end ApiCompiler.Yaml
