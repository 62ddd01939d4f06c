import ApiCompiler.Failure
import ApiCompiler.Value

/-!
# JSON texts

Values as JSON text of ASCII characters, indented by two blanks per level, with empty lists and maps
on one line. Dates and decimal numbers become texts. Keys that are numbers, truth values or null
become texts too; any other key has no text form, although it would have one as a value.
-/

set_option autoImplicit false

namespace ApiCompiler.Json

open Text (hexDigits)

/-- A 16-bit unit as `\u` and four hexadecimal digits. -/
def escapeUnit (n : Nat) : List Char := '\\' :: 'u' :: hexDigits 4 n

/-- The form of a character between double quotes. Characters outside the basic plane are written as
two units. -/
def escapeChar (c : Char) : List Char :=
  let n := c.toNat
  if c = '"' then ['\\', '"']
  else if c = '\\' then ['\\', '\\']
  else if c = '\n' then ['\\', 'n']
  else if c = '\r' then ['\\', 'r']
  else if c = '\t' then ['\\', 't']
  else if n = 12 then ['\\', 'f']
  else if n = 8 then ['\\', 'b']
  else if 32 ≤ n ∧ n ≤ 126 then [c]
  else if n < 0x10000 then escapeUnit n
  else escapeUnit (0xD800 + (n - 0x10000) / 0x400) ++ escapeUnit (0xDC00 + (n - 0x10000) % 0x400)

def printText (s : String) : String :=
  String.ofList ('"' :: s.toList.flatMap escapeChar ++ ['"'])

/-- A double; the three that are not finite have names. -/
def printFloat : Number.Binary64 → String
  | .notANumber => "NaN"
  | .infinite negative => if negative then "-Infinity" else "Infinity"
  | x => x.text

/-- A scalar outside of key position. -/
def printScalar : Scalar → String
  | .null => "null"
  | .bool b => if b then "true" else "false"
  | .int n => Number.intText n
  | .float x => printFloat x
  | .text s => printText s
  | .date d => printText d.text
  | .moment s | .time s => printText s
  | .decimal d => printText d.text

/-- The text that stands for a scalar in key position. -/
def keyText : Scalar → String
  | .text s => s
  | .null => "null"
  | .bool b => if b then "true" else "false"
  | .int n => Number.intText n
  | .float x => printFloat x
  | .date d => d.text
  | .moment s | .time s => s
  | .decimal d => d.text

def lineBreak (level : Nat) : String :=
  String.ofList ('\n' :: List.replicate (2 * level) ' ')

mutual

def printAt (level : Nat) : Value → String
  | .scalar s => printScalar s
  | .list [] => "[]"
  | .list (x :: xs) =>
    "[" ++ lineBreak (level + 1) ++ printAt (level + 1) x ++ printItems (level + 1) xs ++
      lineBreak level ++ "]"
  | .map [] => "\x7b\x7d"
  | .map ((k, v) :: es) =>
    "\x7b" ++ lineBreak (level + 1) ++ printText (keyText k) ++ ": " ++ printAt (level + 1) v ++
      printEntries (level + 1) es ++ lineBreak level ++ "\x7d"

def printItems (level : Nat) : List Value → String
  | [] => ""
  | x :: xs => "," ++ lineBreak level ++ printAt level x ++ printItems level xs

def printEntries (level : Nat) : List (Scalar × Value) → String
  | [] => ""
  | (k, v) :: es =>
    "," ++ lineBreak level ++ printText (keyText k) ++ ": " ++ printAt level v ++
      printEntries level es

end

/-- Whether a scalar has a text form in key position. -/
def standsAsKey : Scalar → Bool
  | .text _ | .null | .bool _ | .int _ | .float _ => true
  | .date _ | .moment _ | .time _ | .decimal _ => false

mutual

/-- The first key of a value without a text form, in the order in which the text is written. -/
def badKey? : Value → Option Scalar
  | .scalar _ => none
  | .list xs => badKeyOfItems? xs
  | .map es => badKeyOfEntries? es

def badKeyOfItems? : List Value → Option Scalar
  | [] => none
  | x :: xs => badKey? x <|> badKeyOfItems? xs

def badKeyOfEntries? : List (Scalar × Value) → Option Scalar
  | [] => none
  | (k, v) :: es =>
    if standsAsKey k then badKey? v <|> badKeyOfEntries? es else some k

end

def print (v : Value) : Except Failure String :=
  match badKey? v with
  | some k => .error (.keyWithoutText (Value.scalar k).kindName)
  | none => .ok (printAt 0 v)

end ApiCompiler.Json
