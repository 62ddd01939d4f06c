import ApiCompiler.Table
import ApiCompiler.Value

/-!
# Settings

Document-level settings and the table of type overrides, with their values when nothing is set.
-/

set_option autoImplicit false

namespace ApiCompiler

/-- Settings of a compilation. -/
structure Settings where
  title : String := "API"
  version : String := "1.0.0"
  description : String := ""
  host : Option String := none
  basePath : String := "/"
  schemes : List String := []
  consumes : List String := ["application/json"]
  produces : List String := ["application/json"]
  includeHidden : Bool := false
  /-- Security definitions; each is a map. -/
  securityDefinitions : Table (List (Scalar × Value)) := []
  /-- Primitive names by the path of the type that they stand for. -/
  typeOverrides : Table String := []

instance : Inhabited Settings := ⟨{}⟩

end ApiCompiler
