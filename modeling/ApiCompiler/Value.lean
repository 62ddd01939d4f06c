import ApiCompiler.Number.Binary64
import ApiCompiler.Number.Decimal

/-!
# Data values

Values of configuration files, defaults and enumerations, and the rendered document itself. Maps
keep the order of their entries and have scalars as keys. `Scalar.same` and `Value.same` are the
comparison that the program uses: numbers are compared by value, so that `1`, `1.0` and `true` are
the same, and maps are compared without regard to the order of their entries. `Value.identical` tells
apart whatever is written differently, and holds of every value and itself.
-/

set_option autoImplicit false

namespace ApiCompiler

open Number (Binary64 Decimal)

/-- A calendar date. -/
structure Date where
  year : Nat
  month : Nat
  day : Nat
  deriving DecidableEq, Repr

/-- The text of a date: year, month and day, padded to four, two and two digits. -/
def Date.text (d : Date) : String :=
  String.ofList (Number.digitsPadded 4 d.year ++ '-' :: Number.digitsPadded 2 d.month ++
    '-' :: Number.digitsPadded 2 d.day)

def Date.daysIn (year month : Nat) : Nat :=
  if month = 2 then
    if year % 4 = 0 ∧ (year % 100 ≠ 0 ∨ year % 400 = 0) then 29 else 28
  else if month = 4 ∨ month = 6 ∨ month = 9 ∨ month = 11 then 30 else 31

/-- The date with the given parts, when the calendar has it. -/
def Date.ofParts? (year month day : Nat) : Option Date :=
  if 1 ≤ year ∧ year ≤ 9999 ∧ 1 ≤ month ∧ month ≤ 12 ∧ 1 ≤ day ∧ day ≤ daysIn year month then
    some ⟨year, month, day⟩
  else none

/-- Reads a date written as `2024-01-02`. -/
def Date.ofText? (s : String) : Option Date :=
  match s.toList with
  | [a, b, c, d, '-', e, f, '-', g, h] =>
    if [a, b, c, d, e, f, g, h].all Number.isDigit then
      Date.ofParts? (Number.ofDigits [a, b, c, d]) (Number.ofDigits [e, f]) (Number.ofDigits [g, h])
    else none
  | _ => none

/-- A value without parts. A `moment` is a date with a time of day, and a `time` a time of day alone;
both are given by their texts. -/
inductive Scalar where
  | null
  | bool (b : Bool)
  | int (n : Int)
  | float (x : Binary64)
  | text (s : String)
  | date (d : Date)
  | moment (s : String)
  | time (s : String)
  | decimal (d : Decimal)
  deriving DecidableEq, Repr

/-- A data value. -/
inductive Value where
  | scalar (s : Scalar)
  | list (items : List Value)
  | map (entries : List (Scalar × Value))
  deriving Repr

namespace Scalar

/-- The exact value of a number as numerator and denominator; truth values count as 0 and 1. -/
def ratio? : Scalar → Option (Int × Nat)
  | .bool b => some (if b then 1 else 0, 1)
  | .int n => some (n, 1)
  | .float (.finite negative m q) =>
    let (num, den) := Number.scaled 2 m q
    some (if negative then -(num : Int) else num, den)
  | .decimal d =>
    let (num, den) := Number.scaled 10 d.coefficient d.exponent
    some (if d.negative then -(num : Int) else num, den)
  | _ => none

/-- Sameness of scalars: numbers by value, everything else by kind and content. A double that is not
a number is not the same as itself. -/
def same (a b : Scalar) : Bool :=
  match a.ratio?, b.ratio? with
  | some (n, d), some (n', d') => n * d' == n' * d
  | none, none => a == b && a != .float .notANumber
  | _, _ => false

end Scalar

namespace Value

@[match_pattern] abbrev null : Value := .scalar .null

@[match_pattern] abbrev bool (b : Bool) : Value := .scalar (.bool b)

/-- An integer. -/
@[match_pattern] abbrev int (n : Int) : Value := .scalar (.int n)

@[match_pattern] abbrev text (s : String) : Value := .scalar (.text s)

def texts (ss : List String) : Value := .list (ss.map .text)

def record (entries : List (String × Value)) : Value :=
  .map (entries.map fun (k, v) => (.text k, v))

instance : Inhabited Value := ⟨.null⟩

/-- What a kind of value is called in messages. -/
def kindName : Value → String
  | .scalar .null => "NoneType"
  | .scalar (.bool _) => "bool"
  | .scalar (.int _) => "int"
  | .scalar (.float _) => "float"
  | .scalar (.text _) => "str"
  | .scalar (.date _) => "date"
  | .scalar (.moment _) => "datetime"
  | .scalar (.time _) => "time"
  | .scalar (.decimal _) => "Decimal"
  | .list _ => "list"
  | .map _ => "dict"

/-- What a kind of value is called as the holder of a member: calendar kinds with their module. -/
def holderName (v : Value) : String :=
  match v with
  | .scalar (.date _) | .scalar (.moment _) | .scalar (.time _) => "datetime." ++ v.kindName
  | .scalar (.decimal _) => "decimal." ++ v.kindName
  | v => v.kindName

def lookup (key : Scalar) : List (Scalar × Value) → Option Value
  | [] => none
  | (k, v) :: entries => if k.same key then some v else lookup key entries

/-- Writes a value at a key: in place when the key is present, at the end otherwise. -/
def insert (key : Scalar) (value : Value) : List (Scalar × Value) → List (Scalar × Value)
  | [] => [(key, value)]
  | (k, v) :: entries =>
    if k.same key then (k, value) :: entries else (k, v) :: insert key value entries

/-- The entries of a map whose keys are written one after the other. -/
def entriesOf (entries : List (Scalar × Value)) : List (Scalar × Value) :=
  entries.foldl (fun acc (k, v) => insert k v acc) []

def isNull : Value → Bool
  | .null => true
  | _ => false

/-- Values that count as empty: null, false, zero, and texts, lists and maps without content. -/
def isEmpty : Value → Bool
  | .scalar (.text s) => s.isEmpty
  | .scalar s => s.same (.bool false) || s == .null
  | .list xs => xs.isEmpty
  | .map es => es.isEmpty

mutual

/-- How deep a value nests lists and maps. -/
def depth : Value → Nat
  | .scalar _ => 0
  | .list xs => depthOfItems xs + 1
  | .map es => depthOfEntries es + 1

def depthOfItems : List Value → Nat
  | [] => 0
  | x :: xs => max (depth x) (depthOfItems xs)

def depthOfEntries : List (Scalar × Value) → Nat
  | [] => 0
  | (_, v) :: es => max (depth v) (depthOfEntries es)

end

mutual

/-- Sameness of values; the order of map entries does not matter. -/
def same : Value → Value → Bool
  | .scalar a, .scalar b => a.same b
  | .list xs, .list ys => sameList xs ys
  | .map es, .map fs => es.length == fs.length && sameEntries es fs
  | _, _ => false

/-- Sameness of lists, item by item. -/
def sameList : List Value → List Value → Bool
  | [], [] => true
  | x :: xs, y :: ys => same x y && sameList xs ys
  | _, _ => false

/-- Every entry of the first list has a same entry in the second. -/
def sameEntries : List (Scalar × Value) → List (Scalar × Value) → Bool
  | [], _ => true
  | (k, v) :: es, fs =>
    (match lookup k fs with
      | some w => same v w
      | none => false) && sameEntries es fs

end

mutual

/-- Identity of values, down to the order of map entries. A double that is not a number is identical
with itself. -/
def identical : Value → Value → Bool
  | .scalar a, .scalar b => a == b
  | .list xs, .list ys => identicalList xs ys
  | .map es, .map fs => identicalEntries es fs
  | _, _ => false

/-- Identity of lists, item by item. -/
def identicalList : List Value → List Value → Bool
  | [], [] => true
  | x :: xs, y :: ys => identical x y && identicalList xs ys
  | _, _ => false

/-- Identity of map entries, one by one. -/
def identicalEntries : List (Scalar × Value) → List (Scalar × Value) → Bool
  | [], [] => true
  | (k, v) :: es, (l, w) :: fs => k == l && identical v w && identicalEntries es fs
  | _, _ => false

end

end Value

end ApiCompiler
