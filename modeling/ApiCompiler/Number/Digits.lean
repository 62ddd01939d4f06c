/-!
# Decimal digits

Digits of natural numbers in base ten, most significant first, and numbers read back from digits.
-/

set_option autoImplicit false

namespace ApiCompiler.Number

def digitChar (n : Nat) : Char := Char.ofNat (48 + n % 10)

/-- Decimal digits of a number below `10 ^ fuel`, in front of `acc`. -/
def digitsLoop : Nat → Nat → List Char → List Char
  | 0, _, acc => acc
  | fuel + 1, n, acc =>
    if n < 10 then digitChar n :: acc else digitsLoop fuel (n / 10) (digitChar n :: acc)

/-- Decimal digits of a number, without leading zeros; zero has the one digit `0`. -/
def digits (n : Nat) : List Char := digitsLoop (n.log2 + 1) n []

/-- Digits padded on the left with zeros to at least `width`. -/
def digitsPadded (width n : Nat) : List Char :=
  let ds := digits n
  List.replicate (width - ds.length) '0' ++ ds

def digitValue (c : Char) : Nat := c.toNat - 48

def ofDigits (cs : List Char) : Nat := cs.foldl (fun n c => 10 * n + digitValue c) 0

def intText : Int → String
  | .ofNat n => String.ofList (digits n)
  | .negSucc n => String.ofList ('-' :: digits (n + 1))

def isDigit (c : Char) : Bool := '0' ≤ c && c ≤ '9'

end ApiCompiler.Number
