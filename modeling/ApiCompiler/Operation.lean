import ApiCompiler.Schema

/-!
# Operations

One operation of the compiled document: its parameters, its responses, and the lists of tags,
security names and transfer schemes, which take an entry once and never an empty one.
-/

set_option autoImplicit false

namespace ApiCompiler

/-- Where a parameter is sent. -/
inductive Location where
  | path | query | header | formData | body
  deriving DecidableEq, Repr

namespace Location

def name : Location → String
  | .path => "path"
  | .query => "query"
  | .header => "header"
  | .formData => "formData"
  | .body => "body"

def all : List Location := [.path, .query, .header, .formData, .body]

def ofName? (s : String) : Option Location := all.find? fun l => l.name == s

end Location

/-- A parameter of an operation. No default value is the null value. -/
structure Parameter where
  name : String
  location : Location
  required : Bool := false
  description : String := ""
  default : Value := .null
  access : String := ""
  enum : List String := []
  pattern : Option String := none
  shape : Schema := { kind := .string }

/-- A response of an operation. -/
structure Response where
  description : String := ""
  shape : Option Schema := none
  headers : Table Schema := []

/-- An operation; responses stand under a status code or under `default`. -/
structure Operation where
  operationId : String
  summary : String := ""
  description : String := ""
  tags : List String := []
  consumes : List String := []
  produces : List String := []
  parameters : List Parameter := []
  responses : Table Response := []
  security : List String := []
  schemes : List String := []
  deprecated : Bool := false

/-- Appends a name to a list unless it is empty or present already. -/
def addName (names : List String) (name : String) : List String :=
  if name = "" ∨ name ∈ names then names else names ++ [name]

def distinctNames (names : List String) : List String :=
  names.foldl (fun acc n => if n ∈ acc then acc else acc ++ [n]) []

namespace Operation

def addTag (op : Operation) (tag : String) : Operation :=
  { op with tags := addName op.tags tag }

def addSecurity (op : Operation) (name : String) : Operation :=
  { op with security := addName op.security name }

def addScheme (op : Operation) (scheme : String) : Operation :=
  { op with schemes := addName op.schemes scheme }

/-- Whether the operation has a parameter of that name, at the given location if there is one. -/
def hasParameter (op : Operation) (name : String) (location : Option Location) : Bool :=
  op.parameters.any fun p => p.name == name && (location.all (p.location == ·))

/-- The key of a response: its code, or `default` for code zero. -/
def responseKey (code : Int) : String :=
  if code = 0 then "default" else Number.intText code

def setResponse (op : Operation) (code : Int) (response : Response) : Operation :=
  { op with responses := op.responses.insert (responseKey code) response }

end Operation

end ApiCompiler
