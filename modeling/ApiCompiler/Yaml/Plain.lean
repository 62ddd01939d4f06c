import ApiCompiler.Failure
import ApiCompiler.Json.Reader
import ApiCompiler.Number.Integer
import ApiCompiler.Text.Case

/-!
# Plain scalars of YAML 1.1

Which scalar a text stands for when it is written without quotes: a truth value, a number, the null
value, a date, one of the two signs `<<` and `=`, or a text. The classification is shared by the
reader, which builds the scalar, and the printer, which quotes a text that would be read as
something else.
-/

set_option autoImplicit false

namespace ApiCompiler.Yaml

open Number (isDigit ofDigits Binary64)

inductive Plain where
  | text | null | bool | int | float | date | moment | merge | equals
  deriving DecidableEq, Repr

def isDigitMark (c : Char) : Bool := isDigit c || c == '_'

def dropSign : List Char → List Char
  | '-' :: cs => cs
  | '+' :: cs => cs
  | cs => cs

/-- A part of a number in base sixty after its first: one digit, or two up to `59`. -/
def isSixtieth : List Char → Bool
  | [c] => isDigit c
  | [c, d] => ('0' ≤ c && c ≤ '5') && isDigit d
  | _ => false

def isDigitRun : List Char → Bool
  | c :: cs => isDigit c && cs.all isDigitMark
  | [] => false

def isExponent : List Char → Bool
  | [] => true
  | e :: sign :: d :: ds =>
    (e == 'e' || e == 'E') && (sign == '-' || sign == '+') && isDigit d && ds.all isDigit
  | _ => false

/-- An integer: binary, octal, hexadecimal, decimal or in base sixty. -/
def isInt (cs : List Char) : Bool :=
  match dropSign cs with
  | '0' :: 'b' :: d :: ds => (d :: ds).all fun c => c == '0' || c == '1' || c == '_'
  | '0' :: 'x' :: d :: ds => (d :: ds).all fun c => (Json.hexValue? c).isSome || c == '_'
  | '0' :: ds => ds.all fun c => ('0' ≤ c && c ≤ '7') || c == '_'
  | c :: ds =>
    match Text.splitChars ':' (c :: ds) with
    | whole :: parts => c != '0' && isDigitRun whole && parts.all isSixtieth
    | [] => false
  | [] => false

/-- A number with a point: decimal with an optional exponent, or in base sixty. -/
def isPointNumber (cs : List Char) : Bool :=
  let unsigned := dropSign cs
  let whole := unsigned.takeWhile isDigitMark
  match unsigned.dropWhile isDigitMark with
  | '.' :: rest =>
    let fraction := rest.takeWhile isDigitMark
    let tail := rest.dropWhile isDigitMark
    if whole = [] then
      unsigned == cs && isDigitRun fraction && isExponent tail
    else isDigitRun whole && isExponent tail
  | _ =>
    match Text.splitChars '.' unsigned with
    | [sixty, fraction] =>
      match Text.splitChars ':' sixty with
      | whole :: part :: parts =>
        isDigitRun whole && (part :: parts).all isSixtieth && fraction.all isDigitMark
      | _ => false
    | _ => false

/-- A number with a point, an infinity, or the value that is not a number. -/
def isFloat (cs : List Char) : Bool :=
  [".inf", ".Inf", ".INF"].contains (String.ofList (dropSign cs)) ||
    [".nan", ".NaN", ".NAN"].contains (String.ofList cs) || isPointNumber cs

structure TimeParts where
  hour : List Char
  minute : List Char
  second : List Char
  fraction : List Char
  zone : Option (Option Char × List Char × List Char)

def oneOrTwoDigits : List Char → Option (List Char × List Char)
  | a :: b :: cs =>
    if isDigit a then if isDigit b then some ([a, b], cs) else some ([a], b :: cs) else none
  | [a] => if isDigit a then some ([a], []) else none
  | [] => none

def twoDigits : List Char → Option (List Char × List Char)
  | a :: b :: cs => if isDigit a && isDigit b then some ([a, b], cs) else none
  | _ => none

def isGap (c : Char) : Bool := c == ' ' || c == '\t'

/-- Reads a time zone: nothing, `Z`, or a signed offset. -/
def readZone (cs : List Char) : Option (Option (Option Char × List Char × List Char)) :=
  if cs = [] then some none
  else match cs.dropWhile isGap with
    | ['Z'] => some (some (none, [], []))
    | sign :: rest =>
      if sign = '-' ∨ sign = '+' then
        match oneOrTwoDigits rest with
        | some (hours, []) => some (some (some sign, hours, []))
        | some (hours, ':' :: more) =>
          match twoDigits more with
          | some (minutes, []) => some (some (some sign, hours, minutes))
          | _ => none
        | _ => none
      else none
    | [] => none

def readTime (cs : List Char) : Option TimeParts :=
  match oneOrTwoDigits cs with
  | some (hour, ':' :: cs) =>
    match twoDigits cs with
    | some (minute, ':' :: cs) =>
      match twoDigits cs with
      | some (second, cs) =>
        let (fraction, cs) := match cs with
          | '.' :: more => (more.takeWhile isDigit, more.dropWhile isDigit)
          | cs => ([], cs)
        (readZone cs).map fun zone => { hour, minute, second, fraction, zone }
      | none => none
    | _ => none
  | _ => none

/-- Year, month, day and, if there is one, the time of a date text. -/
structure DateParts where
  year : List Char
  month : List Char
  day : List Char
  time : Option TimeParts

/-- Reads a date, or a date with a time of day. -/
def readDate (cs : List Char) : Option DateParts :=
  match cs with
  | a :: b :: c :: d :: '-' :: rest =>
    let year := [a, b, c, d]
    if !year.all isDigit then none
    else match oneOrTwoDigits rest with
      | some (month, '-' :: rest) =>
        match oneOrTwoDigits rest with
        | some (day, []) => some { year, month, day, time := none }
        | some (day, t :: rest) =>
          let clock :=
            if t = 'T' ∨ t = 't' then readTime rest
            else if isGap t then readTime (rest.dropWhile isGap)
            else none
          clock.map fun time => { year, month, day, time := some time }
        | none => none
      | _ => none
  | _ => none

/-- A date is known by its text when it has a time of day, or month and day of two digits. -/
def DateParts.isPlain (parts : DateParts) : Bool :=
  parts.time.isSome || (parts.month.length == 2 && parts.day.length == 2)

def boolTexts : List String :=
  ["yes", "Yes", "YES", "no", "No", "NO", "true", "True", "TRUE", "false", "False", "FALSE",
    "on", "On", "ON", "off", "Off", "OFF"]

def nullTexts : List String := ["", "~", "null", "Null", "NULL"]

def classify (cs : List Char) : Plain :=
  let s := String.ofList cs
  if boolTexts.contains s then .bool
  else if isFloat cs then .float
  else if isInt cs then .int
  else if s = "<<" then .merge
  else if nullTexts.contains s then .null
  else match (readDate cs).filter DateParts.isPlain with
    | some parts => if parts.time.isSome then .moment else .date
    | none => if s = "=" then .equals else .text

def dropMarks (cs : List Char) : List Char := cs.filter (· != '_')

def isNegative (cs : List Char) : Bool := cs.head? == some '-'

/-- The integer that is written in a base. -/
def intLiteral (base : Nat) (cs : List Char) : Except Failure Int :=
  match Number.integerIn? base (Text.trimChars cs) with
  | some n => .ok n
  | none => .error (.outOfRange ("invalid literal for int() with base " ++ Number.intText base ++
      ": " ++ Text.quoted (String.ofList cs)))

/-- The integer of a text: binary, octal or hexadecimal by how it begins, in base sixty with colons,
or decimal. -/
def intValue (cs : List Char) : Except Failure Scalar := do
  let cs := dropMarks cs
  let n ← match dropSign cs with
    | [] => throw .noCharacter
    | '0' :: 'b' :: ds => intLiteral 2 ds
    | '0' :: 'x' :: ds => intLiteral 16 ds
    | '0' :: ds => intLiteral 8 ('0' :: ds)
    | ds => do
      let parts ← (Text.splitChars ':' ds).mapM (intLiteral 10)
      pure (parts.foldl (fun n d => 60 * n + d) 0)
  return .int (if isNegative cs then -n else n)

/-- The number that is written in decimal digits, with a point and an exponent or without. -/
def decimalLiteral (cs : List Char) : Except Failure Number.Decimal :=
  match Number.Decimal.ofText? (String.ofList (Text.trimChars cs)) with
  | some d => .ok d
  | none => .error (.outOfRange ("could not convert string to float: " ++
      Text.quoted (String.ofList cs)))

/-- Coefficient and exponent of sixty times a number and another one. -/
def addSixtieth (n : Int × Int) (d : Number.Decimal) : Int × Int :=
  let e := min n.2 d.exponent
  let coefficient := if d.negative then -(d.coefficient : Int) else d.coefficient
  (60 * n.1 * Nat.pow 10 (n.2 - e).natAbs + coefficient * Nat.pow 10 (d.exponent - e).natAbs, e)

/-- The double of a text: an infinity, the value that is not a number, a number in base sixty with
colons, or a decimal number. -/
def floatValue (cs : List Char) : Except Failure Scalar := do
  let cs := (Text.lower (String.ofList (dropMarks cs))).toList
  if cs = [] then throw .noCharacter
  let negative := isNegative cs
  let ds := dropSign cs
  let words := Number.Decimal.splitSign (Text.trimChars ds)
  if ds = ".inf".toList then return .float (.infinite negative)
  else if ds = ".nan".toList ∨ words.2 = "nan".toList then return .float .notANumber
  else if words.2 = "inf".toList ∨ words.2 = "infinity".toList then
    return .float (.infinite (negative != words.1))
  else
    let parts ← (Text.splitChars ':' ds).mapM decimalLiteral
    match parts with
    | [d] =>
      return .float (Binary64.ofScientific (negative != d.negative) d.coefficient d.exponent)
    | parts =>
      let (n, e) := parts.foldl addSixtieth (0, 0)
      return .float (Binary64.ofScientific (negative != decide (n < 0)) n.natAbs e)

/-- The fraction of a second in six digits. -/
def microseconds (fraction : List Char) : List Char :=
  (fraction ++ List.replicate 6 '0').take 6

/-- The offset of a zone as text in hours and minutes; an offset of zero has a plus sign. -/
def zoneText : Option (Option Char × List Char × List Char) → List Char
  | none => []
  | some (none, _, _) => "+00:00".toList
  | some (some sign, hours, minutes) =>
    let total := 60 * ofDigits hours + ofDigits minutes
    (if sign = '-' ∧ total ≠ 0 then '-' else '+') :: Number.digitsPadded 2 (total / 60) ++
      ':' :: Number.digitsPadded 2 (total % 60)

/-- Whether the offset of a zone is a whole day or more. -/
def zoneTooFar : Option (Option Char × List Char × List Char) → Bool
  | some (some _, hours, minutes) => 24 * 60 ≤ 60 * ofDigits hours + ofDigits minutes
  | _ => false

/-- The date, or the date with a time of day, that a text stands for. -/
def dateValue (parts : DateParts) : Except Failure Scalar :=
  let year := ofDigits parts.year
  let month := ofDigits parts.month
  match Date.ofParts? year month (ofDigits parts.day) with
  | none =>
    .error (.outOfRange
      (if year = 0 then "year 0 is out of range"
        else if month = 0 ∨ 12 < month then "month must be in 1..12"
        else "day is out of range for month"))
  | some date =>
    match parts.time with
    | none => .ok (.date date)
    | some t =>
      let hour := ofDigits t.hour
      if 23 < hour then .error (.outOfRange "hour must be in 0..23")
      else if 59 < ofDigits t.minute then .error (.outOfRange "minute must be in 0..59")
      else if 59 < ofDigits t.second then .error (.outOfRange "second must be in 0..59")
      else if zoneTooFar t.zone then
        .error (.outOfRange "offset must be a timedelta strictly between -24 and 24 hours")
      else
        let micro := microseconds t.fraction
        let fraction := if micro.all (· == '0') then [] else '.' :: micro
        .ok (.moment (date.text ++ " " ++ String.ofList
          (Number.digitsPadded 2 hour ++ ':' :: t.minute ++ ':' :: t.second ++ fraction ++
            zoneText t.zone)))

/-- The scalar that a plain text stands for; the two signs have none. -/
def plainValue (cs : List Char) : Except Failure Scalar :=
  match classify cs with
  | .text => .ok (.text (String.ofList cs))
  | .null => .ok .null
  | .bool => .ok (.bool (["yes", "Yes", "YES", "true", "True", "TRUE", "on", "On", "ON"].contains
      (String.ofList cs)))
  | .int => intValue cs
  | .float => floatValue cs
  | .date | .moment =>
    match readDate cs with
    | some parts => dateValue parts
    | none => .error .malformedYaml
  | .merge | .equals => .error .malformedYaml

end ApiCompiler.Yaml
