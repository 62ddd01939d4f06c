import ApiCompiler.Number.Decimal

/-!
# Integers in texts

Integers as they are written by hand: with a sign or without, with digits of any script, and with
single underscores between digits. Integers in another base than ten may have the prefix of the base
in front of their digits.
-/

set_option autoImplicit false

namespace ApiCompiler.Number

/-- Code points of the zeros of the scripts; the other nine digits follow each. -/
def scriptZeros : List Nat := [
  48, 1632, 1776, 1984, 2406, 2534, 2662, 2790, 2918, 3046, 3174, 3302, 3430, 3558, 3664, 3792,
  3872, 4160, 4240, 6112, 6160, 6470, 6608, 6784, 6800, 6992, 7088, 7232, 7248, 42528, 43216,
  43264, 43472, 43504, 43600, 44016, 65296, 66720, 68912, 69734, 69872, 69942, 70096, 70384,
  70736, 70864, 71248, 71360, 71472, 71904, 72016, 72784, 73040, 73120, 92768, 92864, 93008,
  120782, 120792, 120802, 120812, 120822, 123200, 123632, 125264, 130032]

def scriptDigit? (c : Char) : Option Nat :=
  (scriptZeros.find? fun n => n ≤ c.toNat && c.toNat < n + 10).map (c.toNat - ·)

def readDigits (n : Nat) : List Char → Option Nat
  | [] => some n
  | '_' :: c :: cs => (scriptDigit? c).bind fun d => readDigits (10 * n + d) cs
  | c :: cs => (scriptDigit? c).bind fun d => readDigits (10 * n + d) cs

def integer? (cs : List Char) : Option Int :=
  match Decimal.splitSign cs with
  | (_, []) => none
  | (negative, c :: cs) =>
    ((scriptDigit? c).bind fun d => readDigits d cs).map fun n =>
      if negative then -(n : Int) else n

/-- The value of a digit or letter in a base. -/
def digitIn? (base : Nat) (c : Char) : Option Nat :=
  let value :=
    if 'a' ≤ c ∧ c ≤ 'z' then some (c.toNat - 87)
    else if 'A' ≤ c ∧ c ≤ 'Z' then some (c.toNat - 55)
    else scriptDigit? c
  value.filter (· < base)

def prefixLetter : Nat → Option Char
  | 2 => some 'b'
  | 8 => some 'o'
  | 16 => some 'x'
  | _ => none

def dropPrefix (base : Nat) : List Char → List Char
  | '0' :: c :: cs => if prefixLetter base = some c.toLower then cs else '0' :: c :: cs
  | cs => cs

/-- An integer in a base, without underscores. -/
def integerIn? (base : Nat) (cs : List Char) : Option Int :=
  let (negative, unsigned) := Decimal.splitSign cs
  match dropPrefix base unsigned with
  | [] => none
  | ds =>
    (ds.foldl (fun n c => n.bind fun n => (digitIn? base c).map fun d => base * n + d)
      (some 0)).map fun n => if negative then -(n : Int) else n

end ApiCompiler.Number
