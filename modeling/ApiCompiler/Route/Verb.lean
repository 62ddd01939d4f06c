import ApiCompiler.Text.Case

/-!
# Verbs

The verb under which a method answers: the one that its operation names, else its verb marker, else
its custom verb, else `post`, since a method without any of them is a command.
-/

set_option autoImplicit false

namespace ApiCompiler.Route

def markerVerbs : List String := ["GET", "PUT", "POST", "DELETE", "OPTIONS", "PATCH", "HEAD"]

/-- The verb of a marker, which is known by its upper case. -/
def markerVerb (marker : String) : String :=
  let upper := Text.upper marker
  if upper ∈ markerVerbs then Text.lower upper else Text.lower marker

/-- The verb of a method in lower case; the empty text counts as absent. -/
def verb (named marker custom : Option String) : String :=
  match named.filter (· ≠ ""), marker.filter (· ≠ ""), custom.filter (· ≠ "") with
  | some v, _, _ => Text.lower v
  | none, some m, _ => markerVerb m
  | none, none, some c => Text.lower c
  | none, none, none => "post"

end ApiCompiler.Route
