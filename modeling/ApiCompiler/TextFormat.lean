import ApiCompiler.Json.Printer
import ApiCompiler.Yaml.Printer

/-!
# Text formats

The two text formats of a rendered document, read without regard to case and blanks around the name.
-/

set_option autoImplicit false

namespace ApiCompiler

/-- The text formats of a document. -/
inductive TextFormat where
  | json | yaml
  deriving DecidableEq, Repr

namespace TextFormat

def plainName (name : String) : String := Text.trim (Text.lower name)

def name : TextFormat → String
  | .json => "json"
  | .yaml => "yaml"

def ofName? (name : String) : Option TextFormat :=
  if plainName name = "json" then some .json
  else if plainName name = "yaml" then some .yaml
  else none

def print (v : Value) : TextFormat → Except Failure String
  | .json => Json.print v
  | .yaml => Yaml.print v

def printNamed (v : Value) (name : String) : Except Failure String :=
  match ofName? name with
  | some format => format.print v
  | none => .error (.unknownFormat (plainName name))

end TextFormat

end ApiCompiler
