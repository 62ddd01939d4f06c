import ApiCompiler.Number.Digits

/-!
# Double-precision numbers

Finite doubles as `± mantissa · 2 ^ exponent` with `mantissa < 2 ^ 53` and `exponent ≥ -1074`.
`ofScientific` rounds a decimal number to the nearest double, ties to the even mantissa. `shortest`
finds the decimal number with the fewest digits that reads back as a given double, and of those the
nearest one; `text` writes it positionally when the first digit stands between the fourth place
after the point and the sixteenth before it, and with an exponent otherwise.
-/

set_option autoImplicit false

namespace ApiCompiler.Number

inductive Binary64 where
  | finite (negative : Bool) (mantissa : Nat) (exponent : Int)
  | infinite (negative : Bool)
  | notANumber
  deriving DecidableEq, Repr

/-- The quotient rounded to the nearest number, ties to the even one. -/
def roundDiv (num den : Nat) : Nat :=
  let q := num / den
  let r := num % den
  if 2 * r < den then q
  else if den < 2 * r then q + 1
  else if q % 2 = 0 then q else q + 1

/-- Numerator and denominator of `n · base ^ e`. -/
def scaled (base n : Nat) (e : Int) : Nat × Nat :=
  match e with
  | .ofNat k => (n * Nat.pow base k, 1)
  | .negSucc k => (n, Nat.pow base (k + 1))

/-- The greatest `l` with `2 ^ l ≤ num / den`, for positive numbers. -/
def floorLog2 (num den : Nat) : Int :=
  let l : Int := (num.log2 : Int) - (den.log2 : Int)
  let (p, q) := scaled 2 den l
  if p ≤ num * q then l else l - 1

namespace Binary64

/-- The double nearest to `num / den`, ties to the even mantissa. -/
def ofRatio (negative : Bool) (num den : Nat) : Binary64 :=
  if num = 0 then .finite negative 0 (-1074)
  else
    let q := max (-1074) (floorLog2 num den - 52)
    let (p, r) := scaled 2 den q
    let m := roundDiv (num * r) p
    let (m, q) := if m = 1 <<< 53 then (1 <<< 52, q + 1) else (m, q)
    if 971 < q then .infinite negative else .finite negative m q

/-- The double nearest to `± n · 10 ^ e`. -/
def ofScientific (negative : Bool) (n : Nat) (e : Int) : Binary64 :=
  let size := ((digits n).length : Int) + e
  if n = 0 then .finite negative 0 (-1074)
  else if 310 < size then .infinite negative
  else if size < -330 then .finite negative 0 (-1074)
  else
    let (num, den) := scaled 10 n e
    ofRatio negative num den

/-- The least `j ≤ start + fuel`, from `start` on, with `den ≤ num · 10 ^ j`. -/
def leadingPlace (num den : Nat) : Nat → Nat → Nat
  | 0, j => j
  | fuel + 1, j => if den ≤ num * Nat.pow 10 j then j else leadingPlace num den fuel (j + 1)

/-- The greatest `l` with `10 ^ l ≤ num / den`, for a positive double. -/
def floorLog10 (num den : Nat) : Int :=
  if den ≤ num then ((digits (num / den)).length : Int) - 1
  else -(leadingPlace num den 400 1 : Int)

/-- Searches, from `n` digits on, the shortest decimal number that reads back as `± m · 2 ^ q`. -/
def shortestFrom (negative : Bool) (m : Nat) (q : Int) (place : Int) :
    Nat → Nat → Nat × Int
  | 0, _ => (0, 0)
  | fuel + 1, n =>
    let (num, den) := scaled 2 m q
    let k := place - (n : Int) + 1
    let (p, r) := scaled 10 den k
    let low := (num * r) / p
    let nearer := roundDiv (num * r) p
    let other := if nearer = low then low + 1 else low
    if ofScientific negative nearer k = .finite negative m q then (nearer, k)
    else if ofScientific negative other k = .finite negative m q then (other, k)
    else shortestFrom negative m q place fuel (n + 1)

/-- The decimal number `n · 10 ^ e` with the fewest digits that reads back as `± m · 2 ^ q`. -/
def shortest (negative : Bool) (m : Nat) (q : Int) : Nat × Int :=
  let (num, den) := scaled 2 m q
  shortestFrom negative m q (floorLog10 num den) 17 1

def dropFinalZeros (ds : List Char) : List Char :=
  (ds.reverse.dropWhile (· == '0')).reverse

def exponentText (e : Int) : List Char :=
  'e' :: (if e < 0 then '-' else '+') :: digitsPadded 2 e.natAbs

/-- The text of `0.d₁d₂… · 10 ^ point`. -/
def placeDigits (ds : List Char) (point : Int) : List Char :=
  if -4 < point ∧ point ≤ 16 then
    if point ≤ 0 then '0' :: '.' :: List.replicate point.natAbs '0' ++ ds
    else
      let p := point.natAbs
      if ds.length ≤ p then ds ++ List.replicate (p - ds.length) '0' ++ ['.', '0']
      else ds.take p ++ '.' :: ds.drop p
  else match ds with
    | [] => []
    | [d] => d :: exponentText (point - 1)
    | d :: rest => d :: '.' :: rest ++ exponentText (point - 1)

def text : Binary64 → String
  | .notANumber => "nan"
  | .infinite negative => if negative then "-inf" else "inf"
  | .finite negative m q =>
    let body :=
      if m = 0 then ['0', '.', '0']
      else
        let (n, e) := shortest negative m q
        let all := digits n
        placeDigits (dropFinalZeros all) (all.length + e)
    String.ofList (if negative then '-' :: body else body)

end Binary64

end ApiCompiler.Number
