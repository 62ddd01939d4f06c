import ApiCompiler.Notice

/-!
# Allowed values

The comma-separated list of allowed values of a parameter. The range form is recognised and left
out.
-/

set_option autoImplicit false

namespace ApiCompiler.AllowedValues

/-- The texts between commas, without blanks around them and without empty ones. -/
def parts (raw : String) : List String :=
  ((Text.split ',' raw).map Text.trim).filter (· ≠ "")

/-- The values of a raw list, and what there is to report about it. -/
def read (raw : String) : List String × List Notice :=
  let raw := Text.trim raw
  if raw = "" then ([], [])
  else if "range".toList.isPrefixOf raw.toList then ([], [.rangeIgnored raw])
  else (parts raw, [])

end ApiCompiler.AllowedValues
