import ApiCompiler.Number.Digits

/-!
# Exact decimal numbers

A decimal number keeps its coefficient and exponent, so that `1.50` and `1.5` are different texts of
equal numbers. The text is positional unless the exponent is positive or the first digit stands
behind the sixth place after the point.
-/

set_option autoImplicit false

namespace ApiCompiler.Number

/-- The decimal number `± coefficient · 10 ^ exponent`. -/
structure Decimal where
  negative : Bool
  coefficient : Nat
  exponent : Int
  deriving DecidableEq, Repr

namespace Decimal

def text (d : Decimal) : String :=
  let ds := digits d.coefficient
  let left : Int := d.exponent + ds.length
  let point : Int := if d.exponent ≤ 0 ∧ -6 < left then left else 1
  let body :=
    if point ≤ 0 then '0' :: '.' :: List.replicate point.natAbs '0' ++ ds
    else if (ds.length : Int) ≤ point then
      ds ++ List.replicate (point.natAbs - ds.length) '0'
    else ds.take point.natAbs ++ '.' :: ds.drop point.natAbs
  let scale : Int := left - point
  let tail :=
    if scale = 0 then []
    else 'E' :: (if scale < 0 then '-' else '+') :: digits scale.natAbs
  String.ofList ((if d.negative then ['-'] else []) ++ body ++ tail)

/-- Splits a leading sign from a text; `true` stands for a minus sign. -/
def splitSign : List Char → Bool × List Char
  | '-' :: cs => (true, cs)
  | '+' :: cs => (false, cs)
  | cs => (false, cs)

def readExponent : List Char → Option Int
  | [] => some 0
  | c :: cs =>
    if c = 'e' ∨ c = 'E' then
      let (minus, ds) := splitSign cs
      if ds.isEmpty ∨ !ds.all isDigit then none
      else some (if minus then -(ofDigits ds : Int) else ofDigits ds)
    else none

/-- Reads a decimal number: a sign, digits with an optional point, and an optional exponent. -/
def ofText? (s : String) : Option Decimal :=
  let (negative, cs) := splitSign s.toList
  let whole := cs.takeWhile isDigit
  let afterWhole := cs.dropWhile isDigit
  let (fraction, rest) := match afterWhole with
    | '.' :: more => (more.takeWhile isDigit, more.dropWhile isDigit)
    | more => ([], more)
  if whole.isEmpty ∧ fraction.isEmpty then none
  else (readExponent rest).map fun e =>
    { negative, coefficient := ofDigits (whole ++ fraction),
      exponent := e - (fraction.length : Int) }

end Decimal

end ApiCompiler.Number
