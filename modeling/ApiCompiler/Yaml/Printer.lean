import ApiCompiler.Text.Quoted
import ApiCompiler.Yaml.Plain

/-!
# YAML texts

Values as YAML text in block style. List items stand at the column of the key that they belong to;
empty lists and maps are written in flow style. A scalar is plain where it is read back as what it
is, between single quotes where its characters allow that, and between double quotes otherwise.
Lines are folded at a blank once they are longer than `lineWidth`. Decimal numbers and times of day
without a date have no form.
-/

set_option autoImplicit false

namespace ApiCompiler.Yaml

/-- The column after which a line is folded. -/
def lineWidth : Nat := 80

/-- The longest key, its tag of five characters included, that stands in front of its colon. -/
def keyWidth : Nat := 128

/-- Which ways of writing a text are open. -/
structure ScalarForms where
  empty : Bool
  multiline : Bool
  plain : Bool
  single : Bool
  deriving DecidableEq, Repr

/-- A blank, or the end of the text. -/
def endsWord : Option Char → Bool
  | none => true
  | some c => c == ' ' || c == '\t' || c == '\n' || c == '\r'

def isIndicator (c : Char) : Bool :=
  "#,[]&*!|>'\"%@".toList.contains c || c.toNat == 0x7B || c.toNat == 0x7D || c.toNat == 0x60

/-- A character that a text needs double quotes for. -/
def isSpecial (c : Char) : Bool := !(c == '\n' || (32 ≤ c.toNat && c.toNat ≤ 126))

def endsLine (c : Char) : Bool :=
  c == '\n' || c.toNat == 0x85 || c.toNat == 0x2028 || c.toNat == 0x2029

/-- Whether a plain scalar that starts in this way would be taken for something else. -/
def badStart (cs : List Char) : Bool :=
  "---".toList.isPrefixOf cs || "...".toList.isPrefixOf cs ||
    match cs with
    | [] => false
    | c :: rest => isIndicator c || ((c == '?' || c == ':' || c == '-') && endsWord rest.head?)

/-- Whether a colon in front of a blank or a hash behind a blank stands inside the text. -/
def badInside : Option Char → List Char → Bool
  | _, [] => false
  | before, c :: rest =>
    (c == ':' && endsWord rest.head?) || (c == '#' && endsWord before) || badInside (some c) rest

/-- Whether one of the two characters is directly followed by the other one given. -/
def hasPair (a b : Char) : List Char → Bool
  | c :: d :: rest => (c == a && d == b) || hasPair a b (d :: rest)
  | _ => false

def formsOf (cs : List Char) : ScalarForms :=
  if cs = [] then { empty := true, multiline := false, plain := true, single := true }
  else
    let edge (c : Option Char) := c == some ' ' || c == some '\n'
    let special := cs.any isSpecial
    let multiline := cs.any endsLine
    let breakBlank := hasPair '\n' ' ' cs
    let blankBreak := hasPair ' ' '\n' cs
    { empty := false
      multiline
      plain := !(edge cs.head? || edge cs.getLast? || breakBlank || blankBreak || special ||
        multiline || badStart cs || badInside none cs)
      single := !(breakBlank || blankBreak || special) }

inductive ScalarStyle where
  | plain | single | double
  deriving DecidableEq, Repr

/-- The way in which a text is written; a key in front of its colon may not span lines. -/
def styleOf (cs : List Char) (isKey : Bool) : ScalarStyle :=
  let forms := formsOf cs
  if classify cs = .text ∧ forms.plain ∧ !(isKey && (forms.empty || forms.multiline)) then .plain
  else if forms.single ∧ !(isKey && forms.multiline) then .single
  else .double

def newLine (indent : Nat) : List Char := '\n' :: List.replicate indent ' '

/-- Writes a plain text: `blanks` counts the blanks in front of what is left. A single blank behind
the line width becomes a line break. -/
def plainFrom (indent : Nat) (fold : Bool) : Nat → Nat → List Char → List Char
  | _, blanks, [] => List.replicate blanks ' '
  | column, blanks, c :: cs =>
    if c = ' ' then plainFrom indent fold column (blanks + 1) cs
    else if blanks = 0 then c :: plainFrom indent fold (column + 1) 0 cs
    else if blanks = 1 ∧ lineWidth < column ∧ fold then
      newLine indent ++ c :: plainFrom indent fold (indent + 1) 0 cs
    else
      List.replicate blanks ' ' ++ c :: plainFrom indent fold (column + blanks + 1) 0 cs

/-- Writes line breaks inside single quotes: one more than the text has. -/
def quotedBreaks (indent breaks : Nat) : List Char :=
  List.replicate breaks '\n' ++ newLine indent

/-- Writes a text between single quotes. What is pending are `blanks` blanks or `breaks` line
breaks; `atStart` holds as long as nothing else was written. -/
def singleFrom (indent : Nat) (fold : Bool) :
    Nat → Bool → Nat → Nat → List Char → List Char
  | _, _, blanks, breaks, [] =>
    if breaks = 0 then List.replicate blanks ' ' else quotedBreaks indent breaks
  | column, atStart, blanks, breaks, c :: cs =>
    if c = ' ' then
      if breaks = 0 then singleFrom indent fold column atStart (blanks + 1) 0 cs
      else quotedBreaks indent breaks ++ singleFrom indent fold indent false 1 0 cs
    else if c = '\n' then
      if blanks = 0 then singleFrom indent fold column atStart 0 (breaks + 1) cs
      else List.replicate blanks ' ' ++
        singleFrom indent fold (column + blanks) false 0 1 cs
    else
      let (lead, column) :=
        if breaks ≠ 0 then (quotedBreaks indent breaks, indent)
        else if blanks = 1 ∧ lineWidth < column ∧ fold ∧ !atStart then (newLine indent, indent)
        else (List.replicate blanks ' ', column + blanks)
      let shown := if c = '\'' then ['\'', '\''] else [c]
      lead ++ shown ++ singleFrom indent fold (column + shown.length) false 0 0 cs

def hexDigitUpper (n : Nat) : Char := Char.ofNat (if n < 10 then 48 + n else 55 + n)

/-- The last `width` hexadecimal digits of a number, in upper case. -/
def hexUpper : Nat → Nat → List Char
  | 0, _ => []
  | width + 1, n => hexUpper width (n / 16) ++ [hexDigitUpper (n % 16)]

/-- Escapes that are one letter long, by code point. -/
def letterEscapes : List (Nat × Char) :=
  [(0, '0'), (7, 'a'), (8, 'b'), (9, 't'), (10, 'n'), (11, 'v'), (12, 'f'), (13, 'r'), (27, 'e'),
    (34, '"'), (92, '\\'), (0x85, 'N'), (0xA0, '_'), (0x2028, 'L'), (0x2029, 'P')]

def escapeDouble (c : Char) : List Char :=
  let n := c.toNat
  match letterEscapes.lookup n with
  | some letter => ['\\', letter]
  | none =>
    if n < 0x100 then '\\' :: 'x' :: hexUpper 2 n
    else if n < 0x10000 then '\\' :: 'u' :: hexUpper 4 n
    else '\\' :: 'U' :: hexUpper 8 n

/-- A character that stands for itself between double quotes. -/
def isBare (c : Char) : Bool :=
  32 ≤ c.toNat && c.toNat ≤ 126 && c != '"' && c != '\\'

/-- Writes a text between double quotes. `run` holds the characters, last first, that are not yet
written; `first` holds at the first character. A line is folded at a blank or behind an escape, and
a blank at the start of a line is marked. -/
def doubleFrom (indent : Nat) (fold : Bool) :
    Nat → Bool → List Char → List Char → List Char
  | _, _, run, [] => run.reverse
  | column, first, run, c :: cs =>
    let bare := isBare c
    -- What is written when the character needs an escape.
    let written := if bare then [] else run.reverse ++ escapeDouble c
    let column := column + written.length
    let pending := if bare then run else []
    let mayFold := !first && !cs.isEmpty && (c == ' ' || !bare || pending.isEmpty) && fold
    let limit := if bare then lineWidth else lineWidth + 1
    if mayFold ∧ limit < column + pending.length then
      -- What follows the fold starts with the character itself, or behind its escape.
      let next := if bare then some c else cs.head?
      let mark := if next = some ' ' then ['\\'] else []
      written ++ pending.reverse ++ '\\' :: newLine indent ++ mark ++
        doubleFrom indent fold (indent + mark.length) false (if bare then [c] else []) cs
    else
      written ++ doubleFrom indent fold column false (if bare then c :: pending else []) cs

/-- Writes a text that starts at a column; `indent` is the indentation of its further lines. -/
def textFrom (column indent : Nat) (isKey : Bool) (s : String) : List Char :=
  let cs := s.toList
  match styleOf cs isKey with
  | .plain => plainFrom indent (!isKey) column 0 cs
  | .single => '\'' :: singleFrom indent (!isKey) (column + 1) true 0 0 cs ++ ['\'']
  | .double => '"' :: doubleFrom indent (!isKey) (column + 1) true [] cs ++ ['"']

/-- A double: with a point in front of its exponent. -/
def floatText : Number.Binary64 → List Char
  | .notANumber => ".nan".toList
  | .infinite negative => if negative then "-.inf".toList else ".inf".toList
  | x =>
    let cs := x.text.toList
    if cs.contains 'e' ∧ ¬ cs.contains '.' then
      cs.takeWhile (· != 'e') ++ '.' :: '0' :: cs.dropWhile (· != 'e')
    else cs

def scalarFrom (column indent : Nat) (isKey : Bool) : Scalar → Except Failure (List Char)
  | .null => .ok "null".toList
  | .bool b => .ok (if b then "true" else "false").toList
  | .int n => .ok (Number.intText n).toList
  | .float x => .ok (floatText x)
  | .text s => .ok (textFrom column indent isKey s)
  | .date d => .ok d.text.toList
  | .moment s => .ok s.toList
  | .time _ | .decimal _ => .error .malformedYaml

/-- Whether a key stands in front of its colon; a long, empty or multiline key has a line of its
own. -/
def isSimpleKey : Scalar → Bool
  | .text s =>
    let forms := formsOf s.toList
    s.length + 5 < keyWidth && !forms.empty && !forms.multiline
  | .int n => (Number.intText n).length + 5 < keyWidth
  | _ => true

/-- Writes an entry whose value fits on the line of its key; the value is given the column that it
starts at. -/
def entryWith (indent : Nat) (k : Scalar) (value : Nat → Except Failure (List Char)) :
    Except Failure (List Char) :=
  if isSimpleKey k then do
    let key ← scalarFrom indent (indent + 2) true k
    let v ← value (indent + key.length + 2)
    return key ++ ':' :: ' ' :: v
  else do
    let key ← scalarFrom (indent + 2) (indent + 2) false k
    let v ← value (indent + 2)
    return '?' :: ' ' :: key ++ newLine indent ++ ':' :: ' ' :: v

mutual

/-- Writes a value behind an indicator of an item or of a key with a line of its own; the text
starts at column `indent`. -/
def blockAt (indent : Nat) : Value → Except Failure (List Char)
  | .scalar s => scalarFrom indent indent false s
  | .list [] => .ok "[]".toList
  | .map [] => .ok "\x7b\x7d".toList
  | .list (x :: xs) => do
    let first ← blockAt (indent + 2) x
    let rest ← itemsAt indent xs
    return '-' :: ' ' :: first ++ rest
  | .map ((k, v) :: es) => do
    let first ← entryAt indent k v
    let rest ← entriesAt indent es
    return first ++ rest

def itemsAt (indent : Nat) : List Value → Except Failure (List Char)
  | [] => .ok []
  | x :: xs => do
    let first ← blockAt (indent + 2) x
    let rest ← itemsAt indent xs
    return newLine indent ++ '-' :: ' ' :: first ++ rest

def entryAt (indent : Nat) (k : Scalar) : Value → Except Failure (List Char)
  | .list (x :: xs) =>
    if isSimpleKey k then do
      let key ← scalarFrom indent (indent + 2) true k
      let first ← blockAt (indent + 2) x
      let rest ← itemsAt indent xs
      return key ++ ':' :: newLine indent ++ '-' :: ' ' :: first ++ rest
    else do
      let key ← scalarFrom (indent + 2) (indent + 2) false k
      let first ← blockAt (indent + 4) x
      let rest ← itemsAt (indent + 2) xs
      return '?' :: ' ' :: key ++ newLine indent ++ ':' :: ' ' :: '-' :: ' ' :: first ++ rest
  | .map ((l, v) :: es) =>
    if isSimpleKey k then do
      let key ← scalarFrom indent (indent + 2) true k
      let first ← entryAt (indent + 2) l v
      let rest ← entriesAt (indent + 2) es
      return key ++ ':' :: newLine (indent + 2) ++ first ++ rest
    else do
      let key ← scalarFrom (indent + 2) (indent + 2) false k
      let first ← entryAt (indent + 2) l v
      let rest ← entriesAt (indent + 2) es
      return '?' :: ' ' :: key ++ newLine indent ++ ':' :: ' ' :: first ++ rest
  | .list [] => entryWith indent k fun _ => .ok "[]".toList
  | .map [] => entryWith indent k fun _ => .ok "\x7b\x7d".toList
  | .scalar s => entryWith indent k fun column => scalarFrom column (indent + 2) false s

def entriesAt (indent : Nat) : List (Scalar × Value) → Except Failure (List Char)
  | [] => .ok []
  | (k, v) :: es => do
    let first ← entryAt indent k v
    let rest ← entriesAt indent es
    return newLine indent ++ first ++ rest

end

/-- The YAML text of a value. A plain scalar that is the whole document is followed by an end
mark. -/
def print (v : Value) : Except Failure String := do
  let body ← match v with
    | .scalar s => scalarFrom 0 2 false s
    | v => blockAt 0 v
  let plain : Bool := match v with
    | .scalar (.text s) => styleOf s.toList false == .plain
    | .scalar _ => true
    | _ => false
  return String.ofList (body ++ (if plain then "\n...\n" else "\n").toList)

end ApiCompiler.Yaml
