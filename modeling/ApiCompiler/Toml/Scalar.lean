import ApiCompiler.Json.Reader
import ApiCompiler.Text.Blank

/-!
# Scalars of a TOML text

Reading of basic and literal strings, on one line and on several, and of numbers, truth values,
dates and times. A reader returns what it read and the text behind it, and nothing when the text is
malformed.
-/

set_option autoImplicit false

namespace ApiCompiler.Toml

open Number (isDigit ofDigits Binary64)

/-- A blank or a tab. -/
def isGap (c : Char) : Bool := c == ' ' || c == '\t'

/-- Drops blanks and tabs. -/
def skipGap (cs : List Char) : List Char := cs.dropWhile isGap

def isControl (c : Char) : Bool := c.toNat < 32 || c.toNat == 127

/-- A control character that neither a string nor a comment may hold. -/
def isIllegal (c : Char) : Bool := isControl c && c != '\t'

def startsWith (front cs : List Char) : Bool := front.isPrefixOf cs

/-- The character of a code point, if it is one. -/
def charOf? (n : Nat) : Option Char := if n.isValidChar then some (Char.ofNat n) else none

/-- Escapes that are one letter long. -/
def letterEscapes : List (Char × Nat) :=
  [('b', 8), ('t', 9), ('n', 10), ('f', 12), ('r', 13), ('"', 34), ('\\', 92)]

/-- A hexadecimal escape of the given number of digits. -/
def readCode (width : Nat) (cs : List Char) : Option (Char × List Char) :=
  let ds := cs.take width
  if ds.length = width then
    ((Json.hexNumber? ds).bind charOf?).map fun c => (c, cs.drop width)
  else none

/-- Whether a backslash in front of this text continues the line. -/
def continuesLine (cs : List Char) : Bool :=
  match cs with
  | c :: _ => isGap c || c == '\n'
  | [] => false

/-- The text behind a continued line: the rest of the line must be blank. -/
def afterContinuation (cs : List Char) : Option (List Char) :=
  match skipGap cs with
  | '\n' :: rest => some (rest.dropWhile fun c => isGap c || c == '\n')
  | [] => some []
  | _ => none

/-- Reads a basic string up to its closing quotes; `acc` holds its characters, last first. -/
def readBasic (multiline : Bool) : Nat → List Char → List Char → Option (List Char × List Char)
  | 0, _, _ => none
  | bound + 1, acc, cs =>
    match cs with
    | [] => none
    | '"' :: rest =>
      if !multiline then some (acc.reverse, rest)
      else if startsWith ['"', '"'] rest then some (acc.reverse, rest.drop 2)
      else readBasic multiline bound ('"' :: acc) rest
    | '\\' :: rest =>
      if multiline && continuesLine rest then
        (afterContinuation rest).bind fun rest => readBasic multiline bound acc rest
      else match rest with
        | [] => none
        | e :: rest =>
          match letterEscapes.lookup e with
          | some n => readBasic multiline bound (Char.ofNat n :: acc) rest
          | none =>
            let width := if e = 'u' then 4 else if e = 'U' then 8 else 0
            if width = 0 then none
            else (readCode width rest).bind fun (c, rest) =>
              readBasic multiline bound (c :: acc) rest
    | c :: rest =>
      if isIllegal c && !(multiline && c == '\n') then none
      else readBasic multiline bound (c :: acc) rest

/-- Reads a literal string up to its closing apostrophes. -/
def readLiteral (multiline : Bool) : Nat → List Char → List Char → Option (List Char × List Char)
  | 0, _, _ => none
  | bound + 1, acc, cs =>
    match cs with
    | [] => none
    | '\'' :: rest =>
      if !multiline then some (acc.reverse, rest)
      else if startsWith ['\'', '\''] rest then some (acc.reverse, rest.drop 2)
      else readLiteral multiline bound ('\'' :: acc) rest
    | c :: rest =>
      if isIllegal c && !(multiline && c == '\n') then none
      else readLiteral multiline bound (c :: acc) rest

/-- Up to two more quotes behind the closing ones belong to the string. -/
def extraQuotes (quote : Char) (text rest : List Char) : List Char × List Char :=
  let extra := min 2 (rest.takeWhile (· == quote)).length
  (text ++ List.replicate extra quote, rest.drop extra)

/-- Drops a line break at the start of a string on several lines. -/
def dropFirstBreak : List Char → List Char
  | '\n' :: cs => cs
  | cs => cs

/-- Reads a string whose first quote is the first character. -/
def readString (cs : List Char) : Option (List Char × List Char) :=
  let bound := cs.length + 1
  if startsWith ['"', '"', '"'] cs then
    (readBasic true bound [] (dropFirstBreak (cs.drop 3))).map fun (t, r) => extraQuotes '"' t r
  else if startsWith ['\'', '\'', '\''] cs then
    (readLiteral true bound [] (dropFirstBreak (cs.drop 3))).map fun (t, r) => extraQuotes '\'' t r
  else match cs with
    | '"' :: rest => readBasic false bound [] rest
    | '\'' :: rest => readLiteral false bound [] rest
    | _ => none

/-- The longest run of digits with single underscores between them. -/
def digitRun (isDigit : Char → Bool) : List Char → List Char × List Char
  | [] => ([], [])
  | '_' :: c :: cs =>
    if isDigit c then
      let (ds, rest) := digitRun isDigit cs
      (c :: ds, rest)
    else ([], '_' :: c :: cs)
  | c :: cs =>
    if isDigit c then
      let (ds, rest) := digitRun isDigit cs
      (c :: ds, rest)
    else ([], c :: cs)

def digitsFrom (isDigit : Char → Bool) (cs : List Char) : Option (List Char × List Char) :=
  match cs with
  | c :: _ => if isDigit c then some (digitRun isDigit cs) else none
  | [] => none

/-- Reads an integer with a base prefix. -/
def readBased (cs : List Char) : Option (Scalar × List Char) :=
  match cs with
  | '0' :: 'x' :: rest =>
    (digitsFrom (fun c => (Json.hexValue? c).isSome) rest).bind fun (ds, r) =>
      (Json.hexNumber? ds).map fun n => (.int n, r)
  | '0' :: 'o' :: rest =>
    (digitsFrom (fun c => '0' ≤ c && c ≤ '7') rest).map fun (ds, r) =>
      (.int (ds.foldl (fun n c => 8 * n + Number.digitValue c) 0 : Nat), r)
  | '0' :: 'b' :: rest =>
    (digitsFrom (fun c => c == '0' || c == '1') rest).map fun (ds, r) =>
      (.int (ds.foldl (fun n c => 2 * n + Number.digitValue c) 0 : Nat), r)
  | _ => none

/-- Reads a decimal integer, or a double when a fraction or an exponent follows. -/
def readDecimal (cs : List Char) : Option (Scalar × List Char) :=
  let (negative, body) := Number.Decimal.splitSign cs
  let whole := match body with
    | '0' :: rest => some (['0'], rest)
    | body => digitsFrom isDigit body
  whole.map fun (ds, rest) =>
    let fraction : Option (List Char × List Char) := match rest with
      | '.' :: more => digitsFrom isDigit more
      | _ => none
    let rest := (fraction.map Prod.snd).getD rest
    let exponent : Option (Int × List Char) := match rest with
      | e :: more =>
        if e = 'e' ∨ e = 'E' then
          let (minus, more) := Number.Decimal.splitSign more
          (digitsFrom isDigit more).map fun (es, r) =>
            (if minus then -(ofDigits es : Int) else ofDigits es, r)
        else none
      | [] => none
    let rest := (exponent.map Prod.snd).getD rest
    if fraction.isNone ∧ exponent.isNone then
      (.int (if negative then -(ofDigits ds : Int) else ofDigits ds), rest)
    else
      let fs := (fraction.map Prod.fst).getD []
      (.float (Binary64.ofScientific negative (ofDigits (ds ++ fs))
        ((exponent.map Prod.fst).getD 0 - (fs.length : Int))), rest)

def fixedDigits (n : Nat) (cs : List Char) : Option (List Char × List Char) :=
  let ds := cs.take n
  if ds.length = n ∧ ds.all isDigit then some (ds, cs.drop n) else none

/-- Reads a time of day: its text, with up to six digits of a second's fraction. -/
def readTime (cs : List Char) : Option (List Char × List Char) := do
  let (hour, cs) ← fixedDigits 2 cs
  let cs ← if startsWith [':'] cs then some (cs.drop 1) else none
  let (minute, cs) ← fixedDigits 2 cs
  let cs ← if startsWith [':'] cs then some (cs.drop 1) else none
  let (second, cs) ← fixedDigits 2 cs
  if 23 < ofDigits hour ∨ 59 < ofDigits minute ∨ 59 < ofDigits second then none
  else
    let (fraction, cs) := match cs with
      | '.' :: more =>
        let ds := more.takeWhile isDigit
        if ds = [] then ([], cs) else ((ds ++ List.replicate 6 '0').take 6, more.drop ds.length)
      | cs => ([], cs)
    let fraction := if fraction.all (· == '0') then [] else '.' :: fraction
    return (hour ++ ':' :: minute ++ ':' :: second ++ fraction, cs)

/-- Reads the offset of a time, if there is one; no offset at all is written `+00:00`. -/
def readOffset (cs : List Char) : List Char × List Char :=
  match cs with
  | 'Z' :: rest => ("+00:00".toList, rest)
  | 'z' :: rest => ("+00:00".toList, rest)
  | sign :: rest =>
    if sign = '+' ∨ sign = '-' then
      match fixedDigits 2 rest with
      | some (hours, ':' :: more) =>
        match fixedDigits 2 more with
        | some (minutes, more) =>
          if 23 < ofDigits hours ∨ 59 < ofDigits minutes then ([], cs)
          else
            let isZero := ofDigits hours = 0 ∧ ofDigits minutes = 0
            ((if isZero then '+' else sign) :: hours ++ ':' :: minutes, more)
        | none => ([], cs)
      | _ => ([], cs)
    else ([], cs)
  | [] => ([], cs)

/-- Reads a date, with a time of day if one follows. -/
def readDate (cs : List Char) : Option (Option Scalar × List Char) := do
  let (year, cs) ← fixedDigits 4 cs
  let cs ← if startsWith ['-'] cs then some (cs.drop 1) else none
  let (month, cs) ← fixedDigits 2 cs
  let cs ← if startsWith ['-'] cs then some (cs.drop 1) else none
  let (day, cs) ← fixedDigits 2 cs
  let date := Date.ofParts? (ofDigits year) (ofDigits month) (ofDigits day)
  let clock := match cs with
    | t :: more => if t = 'T' ∨ t = 't' ∨ t = ' ' then readTime more else none
    | [] => none
  match clock with
  | none => return (date.map .date, cs)
  | some (time, cs) =>
    let (offset, cs) := readOffset cs
    return (date.map fun d => .moment (d.text ++ " " ++ String.ofList (time ++ offset)), cs)

def wordValues : List (String × Scalar) :=
  [("true", .bool true), ("false", .bool false), ("inf", .float (.infinite false)),
    ("+inf", .float (.infinite false)), ("-inf", .float (.infinite true)),
    ("nan", .float .notANumber), ("+nan", .float .notANumber), ("-nan", .float .notANumber)]

def readScalar (cs : List Char) : Option (Scalar × List Char) :=
  match cs with
  | '"' :: _ => (readString cs).map fun (t, r) => (.text (String.ofList t), r)
  | '\'' :: _ => (readString cs).map fun (t, r) => (.text (String.ofList t), r)
  | _ =>
    let named := wordValues.findSome? fun (word, s) =>
      (Json.dropWord word.toList cs).map fun r => (s, r)
    match named with
    | some found => some found
    | none =>
      match readDate cs with
      | some (date, rest) => date.map fun s => (s, rest)
      | none =>
        match readTime cs with
        | some (time, rest) => some (.time (String.ofList time), rest)
        | none =>
          match readBased cs with
          | some found => some found
          | none => readDecimal cs

end ApiCompiler.Toml
