import ApiCompiler.Yaml.Scalar

/-!
# Tokens of a YAML text

The token stream of a text. Indentation shows as start and end tokens of block collections. A scalar
that may turn out to be a key is remembered, per nesting level of flow collections, until the line
ends; when its colon arrives, a key token is put in front of it.
-/

set_option autoImplicit false

namespace ApiCompiler.Yaml

inductive Token where
  | directive | documentStart | documentEnd | streamEnd
  | blockSequenceStart | blockMappingStart | blockEnd
  | flowSequenceStart | flowSequenceEnd | flowMappingStart | flowMappingEnd
  | key | value | blockEntry | flowEntry
  | reuse (name : String)
  | anchor (name : String)
  | tag (name : String)
  | scalar (text : List Char) (plain : Bool)
  deriving DecidableEq, Repr

/-- A scalar or collection that may turn out to be a key; `at_` counts the tokens in front of it. -/
structure PossibleKey where
  at_ : Nat
  required : Bool
  index : Nat
  line : Nat
  column : Nat

/-- The state of tokenisation. Tokens are kept last first. -/
structure Scan where
  cursor : Cursor
  tokens : List Token := []
  count : Nat := 0
  flow : Nat := 0
  /-- The column of the innermost block collection, and those of the ones around it. -/
  indent : Int := -1
  outer : List Int := []
  keyAllowed : Bool := true
  /-- Possible keys by flow level. -/
  keys : List (Nat × PossibleKey) := []

namespace Scan

def push (s : Scan) (t : Token) : Scan :=
  { s with tokens := t :: s.tokens, count := s.count + 1 }

def insertAt (s : Scan) (n : Nat) (t : Token) : Scan :=
  let later := s.count - n
  { s with tokens := s.tokens.take later ++ t :: s.tokens.drop later, count := s.count + 1 }

def currentKey? (s : Scan) : Option PossibleKey := s.keys.lookup s.flow

def forgetKey (s : Scan) : Scan := { s with keys := s.keys.filter fun (l, _) => l != s.flow }

/-- Forgets the possible key of the current flow level, which must not be a required one. -/
def dropKey (s : Scan) : Option Scan :=
  match s.currentKey? with
  | some k => if k.required then none else some s.forgetKey
  | none => some s

/-- Remembers the cursor as a possible key, where keys are allowed. -/
def saveKey (s : Scan) : Option Scan :=
  let required := s.flow == 0 && s.indent == (s.cursor.column : Int)
  if s.keyAllowed then
    s.dropKey.map fun s =>
      { s with keys := (s.flow, ⟨s.count, required, s.cursor.index, s.cursor.line, s.cursor.column⟩)
          :: s.keys }
  else some s

/-- Forgets possible keys of earlier lines and those too far back; a required one must not be
forgotten. -/
def dropStaleKeys (s : Scan) : Option Scan :=
  let stale (k : PossibleKey) : Bool :=
    k.line != s.cursor.line || 1024 < s.cursor.index - k.index
  if s.keys.any fun (_, k) => stale k && k.required then none
  else some { s with keys := s.keys.filter fun (_, k) => !stale k }

/-- Ends the block collections that stand deeper than a column. -/
def unwindTo (column : Int) : List Int → Scan → Scan
  | [], s => s
  | o :: outer, s =>
    if column < s.indent then
      unwindTo column outer { s.push .blockEnd with indent := o, outer }
    else s

/-- Ends the block collections that stand deeper than a column; inside flow collections
indentation does not count. -/
def unwind (s : Scan) (column : Int) : Scan :=
  if s.flow = 0 then unwindTo column s.outer s else s

/-- Opens a block collection at a column that is deeper than the innermost one. -/
def opened? (s : Scan) (column : Nat) : Option Scan :=
  if s.indent < (column : Int) then
    some { s with indent := column, outer := s.indent :: s.outer }
  else none

def forward (s : Scan) (n : Nat) : Scan := { s with cursor := s.cursor.skip n }

/-- Skips blanks, comments and line breaks; behind a line break a key may start. -/
def toNextToken : Nat → Scan → Scan
  | 0, s => s
  | bound + 1, s =>
    let c := s.cursor
    let c := if c.index = 0 ∧ c.head.toNat = 0xFEFF then c.step else c
    let c := c.skipWhile (· == ' ')
    let c := if c.head = '#' then c.skipWhile fun x => !isLineEnd x else c
    if isBreak c.head then
      toNextToken bound
        { s with cursor := c.lineBreak.2, keyAllowed := s.keyAllowed || s.flow == 0 }
    else { s with cursor := c }

def atEnd (s : Scan) : Option Scan :=
  (s.unwind (-1)).dropKey.map fun s => { s.push .streamEnd with keyAllowed := false, keys := [] }

/-- A document mark or a directive: ends everything that is open. -/
def atMark (s : Scan) (t : Token) (n : Nat) : Option Scan :=
  (s.unwind (-1)).dropKey.map fun s => { (s.forward n).push t with keyAllowed := false }

def flowStart (s : Scan) (t : Token) : Option Scan :=
  s.saveKey.map fun s => { (s.forward 1).push t with flow := s.flow + 1, keyAllowed := true }

def flowEnd (s : Scan) (t : Token) : Option Scan :=
  s.dropKey.map fun s => { (s.forward 1).push t with flow := s.flow - 1, keyAllowed := false }

def flowEntry (s : Scan) : Option Scan :=
  ({ s with keyAllowed := true } : Scan).dropKey.map fun s => (s.forward 1).push .flowEntry

/-- Opens a block collection at the cursor unless one stands there; keys must be allowed. -/
def openHere (s : Scan) (t : Token) : Option Scan :=
  if s.flow ≠ 0 then some s
  else if !s.keyAllowed then none
  else match s.opened? s.cursor.column with
    | some s => some (s.push t)
    | none => some s

def blockEntry (s : Scan) : Option Scan := do
  let s ← s.openHere .blockSequenceStart
  let s ← ({ s with keyAllowed := true } : Scan).dropKey
  return (s.forward 1).push .blockEntry

def keyMark (s : Scan) : Option Scan := do
  let s ← s.openHere .blockMappingStart
  let s ← ({ s with keyAllowed := s.flow == 0 } : Scan).dropKey
  return (s.forward 1).push .key

/-- A colon in front of a value. -/
def valueMark (s : Scan) : Option Scan :=
  match s.currentKey? with
  | some k =>
    let s := s.forgetKey.insertAt k.at_ .key
    let s := if s.flow ≠ 0 then s else match s.opened? k.column with
      | some s => s.insertAt k.at_ .blockMappingStart
      | none => s
    some (({ s with keyAllowed := false } : Scan).forward 1 |>.push .value)
  | none => do
    let s ← s.openHere .blockMappingStart
    let s ← ({ s with keyAllowed := s.flow == 0 } : Scan).dropKey
    return (s.forward 1).push .value

def isNameChar (c : Char) : Bool :=
  Number.isDigit c || ('a' ≤ c && c ≤ 'z') || ('A' ≤ c && c ≤ 'Z') || c == '-' || c == '_'

/-- An anchor or alias, with its sign. -/
def reference (s : Scan) (make : String → Token) : Option Scan := do
  let s ← s.saveKey
  let (name, c) := s.cursor.step.span isNameChar
  if name = [] ∨ !(isWordEnd c.head || "?:,]\x7d%@`".toList.contains c.head) then none
  else return { s with cursor := c, keyAllowed := false }.push (make (String.ofList name))

def tagMark (s : Scan) : Option Scan := do
  let s ← s.saveKey
  let (name, c) := s.cursor.span fun x => !isWordEnd x
  return { s with cursor := c, keyAllowed := false }.push (.tag (String.ofList name))

def blockText (s : Scan) (folded : Bool) : Option Scan := do
  let s ← ({ s with keyAllowed := true } : Scan).dropKey
  let (text, c) ← blockScalar folded s.indent s.cursor.step
  return { s with cursor := c }.push (.scalar text false)

def quotedText (s : Scan) (quote : Char) : Option Scan := do
  let s ← s.saveKey
  let (text, c) ← quotedScalar quote (s.cursor.rest.length + 1) s.cursor.step []
  return { s with cursor := c, keyAllowed := false }.push (.scalar text false)

def plainText (s : Scan) : Option Scan := do
  let s ← s.saveKey
  let (text, c, keyAllowed) :=
    plainScalar (s.flow != 0) (s.indent + 1) (s.cursor.rest.length + 1) s.cursor [] [] false
  return { s with cursor := c, keyAllowed }.push (.scalar text true)

def directiveLine (s : Scan) : Option Scan :=
  (s.unwind (-1)).dropKey.map fun s =>
    let cursor := s.cursor.skipWhile fun x => !isLineEnd x
    { s with cursor, keyAllowed := false }.push .directive

/-- Whether a plain scalar can start with the character that stands in front of the given one. -/
def startsPlain (inFlow : Bool) (x next : Char) : Bool :=
  !(isWordEnd x || "-?:,[]\x7b\x7d#&*!|>'\"%@`".toList.contains x) ||
    (!isWordEnd next && (x == '-' || (!inFlow && (x == '?' || x == ':'))))

def next (s : Scan) : Option Scan := do
  let s ← (s.toNextToken (s.cursor.rest.length + 1)).dropStaleKeys
  let c := s.cursor
  let s := s.unwind c.column
  let x := c.head
  let inFlow := s.flow != 0
  let spaced := inFlow || isWordEnd (c.peek 1)
  if c.rest = [] then s.atEnd
  else if x = '%' ∧ c.column = 0 then s.directiveLine
  else if c.column = 0 ∧ c.atDocumentMark then
    s.atMark (if x = '-' then .documentStart else .documentEnd) 3
  else if x = '[' then s.flowStart .flowSequenceStart
  else if x.toNat = 0x7B then s.flowStart .flowMappingStart
  else if x = ']' then s.flowEnd .flowSequenceEnd
  else if x.toNat = 0x7D then s.flowEnd .flowMappingEnd
  else if x = ',' then s.flowEntry
  else if x = '-' ∧ isWordEnd (c.peek 1) then s.blockEntry
  else if x = '?' ∧ spaced then s.keyMark
  else if x = ':' ∧ spaced then s.valueMark
  else if x = '*' then s.reference .reuse
  else if x = '&' then s.reference .anchor
  else if x = '!' then s.tagMark
  else if (x = '|' ∨ x = '>') ∧ !inFlow then s.blockText (x == '>')
  else if x = '\'' ∨ x = '"' then s.quotedText x
  else if startsPlain inFlow x (c.peek 1) then s.plainText
  else none

def run : Nat → Scan → Option (List Token)
  | 0, _ => none
  | bound + 1, s =>
    match s.next with
    | none => none
    | some s => if s.tokens.head? = some .streamEnd then some s.tokens.reverse else run bound s

end Scan

def isYamlChar (c : Char) : Bool :=
  let n := c.toNat
  n == 9 || n == 10 || n == 13 || (0x20 ≤ n && n ≤ 0x7E) || n == 0x85 || (0xA0 ≤ n && n ≤ 0xD7FF) ||
    (0xE000 ≤ n && n ≤ 0xFFFD) || 0x10000 ≤ n

def tokenize (cs : List Char) : Option (List Token) :=
  if cs.all isYamlChar then Scan.run (cs.length + 2) { cursor := { rest := cs } } else none

end ApiCompiler.Yaml
