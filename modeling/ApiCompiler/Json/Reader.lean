import ApiCompiler.Value

/-!
# Reading JSON

A reader for one JSON value with blanks around it. Beyond the standard it takes `NaN`, `Infinity`
and `-Infinity`. Of entries with one key the last value counts, at the place of the first. The
recursion carries a bound on the nesting that the length of the text never exceeds.
-/

set_option autoImplicit false

namespace ApiCompiler.Json

open Number (isDigit ofDigits Binary64)

def skipBlanks (cs : List Char) : List Char :=
  cs.dropWhile fun c => c == ' ' || c == '\t' || c == '\n' || c == '\r'

def hexValue? (c : Char) : Option Nat :=
  if isDigit c then some (c.toNat - 48)
  else if 'a' ≤ c ∧ c ≤ 'f' then some (c.toNat - 87)
  else if 'A' ≤ c ∧ c ≤ 'F' then some (c.toNat - 55)
  else none

def hexNumber? (cs : List Char) : Option Nat :=
  cs.foldl (fun n c => n.bind fun n => (hexValue? c).map fun d => 16 * n + d) (some 0)

def simpleEscape? (c : Char) : Option Char :=
  match c with
  | '"' => some '"'
  | '\\' => some '\\'
  | '/' => some '/'
  | 'b' => some (Char.ofNat 8)
  | 'f' => some (Char.ofNat 12)
  | 'n' => some '\n'
  | 'r' => some '\r'
  | 't' => some '\t'
  | _ => none

/-- Reads a text up to its closing quote. A high unit waits in `pending` for its low unit; a unit
without its partner has no character of its own and is shown as the replacement character. -/
def readTextFrom : Option Nat → List Char → List Char → Option (String × List Char)
  | _, _, [] => none
  | pending, acc, '"' :: cs =>
    let acc := if pending.isSome then Char.ofNat 0xFFFD :: acc else acc
    some (String.ofList acc.reverse, cs)
  | pending, acc, '\\' :: 'u' :: a :: b :: c :: d :: cs =>
    match hexNumber? [a, b, c, d] with
    | none => none
    | some n =>
      match pending with
      | some high =>
        if 0xDC00 ≤ n ∧ n < 0xE000 then
          let code := 0x10000 + (high - 0xD800) * 0x400 + (n - 0xDC00)
          readTextFrom none (Char.ofNat code :: acc) cs
        else if 0xD800 ≤ n ∧ n < 0xDC00 then
          readTextFrom (some n) (Char.ofNat 0xFFFD :: acc) cs
        else readTextFrom none (Char.ofNat n :: Char.ofNat 0xFFFD :: acc) cs
      | none =>
        if 0xD800 ≤ n ∧ n < 0xDC00 then readTextFrom (some n) acc cs
        else if 0xDC00 ≤ n ∧ n < 0xE000 then readTextFrom none (Char.ofNat 0xFFFD :: acc) cs
        else readTextFrom none (Char.ofNat n :: acc) cs
  | pending, acc, '\\' :: c :: cs =>
    let acc := if pending.isSome then Char.ofNat 0xFFFD :: acc else acc
    match simpleEscape? c with
    | none => none
    | some e => readTextFrom none (e :: acc) cs
  | pending, acc, c :: cs =>
    if c.toNat < 32 then none
    else
      let acc := if pending.isSome then Char.ofNat 0xFFFD :: acc else acc
      readTextFrom none (c :: acc) cs

def readText (cs : List Char) : Option (String × List Char) := readTextFrom none [] cs

/-- The whole part of a number: a zero, or digits that start with another digit. -/
def readWhole (cs : List Char) : Option (List Char × List Char) :=
  match cs with
  | '0' :: rest => some (['0'], rest)
  | c :: _ => if isDigit c then some (cs.takeWhile isDigit, cs.dropWhile isDigit) else none
  | [] => none

/-- The fraction digits of a number, when a point and a digit follow. -/
def readFraction : List Char → Option (List Char × List Char)
  | '.' :: cs =>
    let ds := cs.takeWhile isDigit
    if ds.isEmpty then none else some (ds, cs.dropWhile isDigit)
  | _ => none

/-- The exponent of a number, when a complete one follows. -/
def readExponent : List Char → Option (Int × List Char)
  | c :: cs =>
    if c = 'e' ∨ c = 'E' then
      let (minus, ds) := Number.Decimal.splitSign cs
      let body := ds.takeWhile isDigit
      if body.isEmpty then none
      else some (if minus then -(ofDigits body : Int) else ofDigits body, ds.dropWhile isDigit)
    else none
  | [] => none

/-- Reads a number: an integer without fraction and exponent, a double otherwise. -/
def readNumber (cs : List Char) : Option (Scalar × List Char) :=
  let (negative, body) := match cs with
    | '-' :: rest => (true, rest)
    | rest => (false, rest)
  match readWhole body with
  | none => none
  | some (whole, rest) =>
    let fraction := readFraction rest
    let rest := (fraction.map Prod.snd).getD rest
    let exponent := readExponent rest
    let rest := (exponent.map Prod.snd).getD rest
    let scalar :=
      if fraction.isNone ∧ exponent.isNone then
        Scalar.int (if negative then -(ofDigits whole : Int) else ofDigits whole)
      else
        let ds := (fraction.map Prod.fst).getD []
        .float (Binary64.ofScientific negative (ofDigits (whole ++ ds))
          ((exponent.map Prod.fst).getD 0 - (ds.length : Int)))
    some (scalar, rest)

/-- Whether the text starts with the given word, and what follows it. -/
def dropWord (word cs : List Char) : Option (List Char) :=
  if cs.take word.length = word then some (cs.drop word.length) else none

def wordValues : List (String × Scalar) :=
  [("null", .null), ("true", .bool true), ("false", .bool false),
   ("NaN", .float .notANumber), ("Infinity", .float (.infinite false)),
   ("-Infinity", .float (.infinite true))]

def readScalar (cs : List Char) : Option (Scalar × List Char) :=
  match wordValues.findSome? fun (word, s) => (dropWord word.toList cs).map fun r => (s, r) with
  | some found => some found
  | none =>
    match cs with
    | '"' :: rest => (readText rest).map fun (s, r) => (.text s, r)
    | _ => readNumber cs

mutual

/-- Reads a value, whose nesting is below the bound, from a text without leading blanks. -/
def readValue : Nat → List Char → Option (Value × List Char)
  | 0, _ => none
  | bound + 1, cs =>
    match cs with
    | '[' :: rest =>
      match skipBlanks rest with
      | ']' :: rest => some (.list [], rest)
      | rest => (readItems bound rest).map fun (xs, r) => (.list xs, r)
    | '{' :: rest =>
      match skipBlanks rest with
      | '}' :: rest => some (.map [], rest)
      | rest => (readEntries bound rest).map fun (es, r) => (.map (Value.entriesOf es), r)
    | _ => (readScalar cs).map fun (s, r) => (.scalar s, r)

def readItems : Nat → List Char → Option (List Value × List Char)
  | 0, _ => none
  | bound + 1, cs =>
    match readValue bound cs with
    | none => none
    | some (x, rest) =>
      match skipBlanks rest with
      | ']' :: rest => some ([x], rest)
      | ',' :: rest => (readItems bound (skipBlanks rest)).map fun (xs, r) => (x :: xs, r)
      | _ => none

def readEntries : Nat → List Char → Option (List (Scalar × Value) × List Char)
  | 0, _ => none
  | bound + 1, cs =>
    match cs with
    | '"' :: rest =>
      match readText rest with
      | none => none
      | some (key, rest) =>
        match skipBlanks rest with
        | ':' :: rest =>
          match readValue bound (skipBlanks rest) with
          | none => none
          | some (v, rest) =>
            match skipBlanks rest with
            | '}' :: rest => some ([(.text key, v)], rest)
            | ',' :: rest =>
              (readEntries bound (skipBlanks rest)).map fun (es, r) => ((.text key, v) :: es, r)
            | _ => none
        | _ => none
    | _ => none

end

/-- Where a character stands: between texts, in a text, or behind a backslash in a text. -/
inductive Place where
  | between | inside | escaped

/-- How deep the brackets of a text nest that stand between its texts, where `n` are open. -/
def deepest (n : Nat) : Place → List Char → Nat
  | _, [] => n
  | .between, c :: cs =>
    if c = '"' then deepest n .inside cs
    else if c = '[' ∨ c = '{' then deepest (n + 1) .between cs
    else if c = ']' ∨ c = '}' then max n (deepest (n - 1) .between cs)
    else deepest n .between cs
  | .inside, c :: cs =>
    deepest n (if c = '"' then .between else if c = '\\' then .escaped else .inside) cs
  | .escaped, _ :: cs => deepest n .inside cs

/-- Reads a JSON text; `none` when it is malformed. -/
def read (s : String) : Option Value :=
  let cs := s.toList
  match readValue (2 * cs.length + 2) (skipBlanks cs) with
  | some (v, rest) => if skipBlanks rest = [] then some v else none
  | none => none

end ApiCompiler.Json
