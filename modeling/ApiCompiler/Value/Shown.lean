import ApiCompiler.Text.Quoted
import ApiCompiler.Value

/-!
# How scalars are shown

The text of a scalar among the arguments of a type, and its form as a part of a place inside of a
data value.
-/

set_option autoImplicit false

namespace ApiCompiler

/-- The text of a value among the arguments of a type. -/
def Scalar.argumentText : Scalar → String
  | .null => "None"
  | .bool b => if b then "True" else "False"
  | .int n => Number.intText n
  | .float x => x.text
  | .text s => Text.quoted s
  | .date d => "datetime.date(" ++
      ", ".intercalate ([d.year, d.month, d.day].map fun n => Number.intText (n : Nat)) ++ ")"
  | .moment s | .time s => s
  | .decimal d => "Decimal(" ++ Text.quoted d.text ++ ")"

/-- A key as a part of a place: texts and integers stand for themselves, truth values for 0 and 1,
and any other key for its text. -/
def Scalar.asPlace : Scalar → Scalar
  | .text s => .text s
  | .int n => if n.natAbs < 1 <<< 63 then .int n else .text (Number.intText n)
  | .bool b => .int (if b then 1 else 0)
  | s => .text s.argumentText

end ApiCompiler
