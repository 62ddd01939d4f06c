import ApiCompiler.Number.Integer
import ApiCompiler.Types.Text

/-!
# Values of enumerations

The values that the members of an enumeration end up with, and which of them are listed: a member
whose value occurs before is another name for the earlier one, and of flags only single bits are
listed.
-/

set_option autoImplicit false

namespace ApiCompiler.EnumBase

def scalarText : Scalar → String
  | .text s => s
  | .date d => d.text
  | .decimal d => d.text
  | s => s.argumentText

/-- The integer that a scalar is turned into. -/
def toInteger : Scalar → Option Int
  | .bool b => some (if b then 1 else 0)
  | .int n => some n
  | .text s => Number.integer? (Text.trim s).toList
  | s => s.ratio?.map fun (n, d) => Int.tdiv n d

def value (base : EnumBase) (v : Value) : Value :=
  match base, v with
  | .str, .scalar s => .text (scalarText s)
  | .int, .scalar s | .intEnum, .scalar s | .intFlag, .scalar s =>
    ((toInteger s).map Value.int).getD v
  | _, v => v

/-- A number with exactly one bit set. -/
def isSingleBit : Value → Bool
  | .bool b => b
  | .int n => 0 < n && n.toNat == 1 <<< n.toNat.log2
  | _ => false

def listed (base : EnumBase) (members : List Value) : List Value :=
  let values := (members.map base.value).foldl
    (fun acc v => if acc.any (Value.same v) then acc else acc ++ [v]) []
  if base = .flag ∨ base = .intFlag then values.filter isSingleBit else values

/-- The known class that the members of an enumeration belong to. -/
def mixin? : EnumBase → Option Builtin
  | .intEnum | .intFlag | .int => some .int
  | .strEnum | .str => some .str
  | .plain | .flag => none

end ApiCompiler.EnumBase
