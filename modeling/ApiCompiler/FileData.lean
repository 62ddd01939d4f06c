import ApiCompiler.Value

/-!
# Data of settings files

What the text of a settings file can stand for. JSON and TOML texts give values; YAML texts can also
give sequences of bytes and sets.
-/

set_option autoImplicit false

namespace ApiCompiler

/-- Data of a settings file. The keys of a map and the members of a set are scalars or bytes. -/
inductive FileData where
  | scalar (s : Scalar)
  | bytes (content : List UInt8)
  | list (items : List FileData)
  | map (entries : List (FileData × FileData))
  | set (members : List FileData)

namespace FileData

mutual

def ofValue : Value → FileData
  | .scalar s => .scalar s
  | .list xs => .list (ofItems xs)
  | .map es => .map (ofEntries es)

def ofItems : List Value → List FileData
  | [] => []
  | x :: xs => ofValue x :: ofItems xs

def ofEntries : List (Scalar × Value) → List (FileData × FileData)
  | [] => []
  | (k, v) :: es => (.scalar k, ofValue v) :: ofEntries es

end

/-- Sameness of keys. -/
def sameKey : FileData → FileData → Bool
  | .scalar a, .scalar b => a.same b
  | .bytes a, .bytes b => a == b
  | _, _ => false

/-- Writes data at a key: in place when the key is present, at the end otherwise. -/
def insert (key data : FileData) : List (FileData × FileData) → List (FileData × FileData)
  | [] => [(key, data)]
  | (k, d) :: es => if k.sameKey key then (k, data) :: es else (k, d) :: insert key data es

/-- The entries of a map whose keys are written one after the other. -/
def entriesOf (es : List (FileData × FileData)) : List (FileData × FileData) :=
  es.foldl (fun acc (k, d) => insert k d acc) []

def entries? : FileData → Option (List (FileData × FileData))
  | .map es => some es
  | _ => none

def text? : FileData → Option String
  | .scalar (.text s) => some s
  | _ => none

def isNull : FileData → Bool
  | .scalar .null => true
  | _ => false

/-- Data that counts as empty. -/
def isEmpty : FileData → Bool
  | .scalar s => (Value.scalar s).isEmpty
  | .bytes content => content.isEmpty
  | .list xs => xs.isEmpty
  | .map es => es.isEmpty
  | .set xs => xs.isEmpty

/-- What a kind of data is called in messages. -/
def kindName : FileData → String
  | .scalar s => (Value.scalar s).kindName
  | .bytes _ => "bytes"
  | .list _ => "list"
  | .map _ => "dict"
  | .set _ => "set"

/-- What a kind of data is called as the holder of a member. -/
def holderName : FileData → String
  | .scalar s => (Value.scalar s).holderName
  | d => d.kindName

/-- The text that bytes are the encoding of. -/
def decoded? (content : List UInt8) : Option String :=
  String.fromUTF8? ⟨content.toArray⟩

/-- Data in key position as a scalar: bytes count as their text. -/
def asKey : FileData → Scalar
  | .scalar s => s
  | .bytes content => .text ((decoded? content).getD "")
  | _ => .null

mutual

/-- Data as the value of a setting: bytes that encode a text count as the text, others as the list
of their numbers, and a set as the list of its members. -/
def asValue : FileData → Value
  | .scalar s => .scalar s
  | .bytes content =>
    match decoded? content with
    | some s => .text s
    | none => .list (content.map fun b => .int b.toNat)
  | .list xs | .set xs => .list (asItems xs)
  | .map es => .map (asEntries es)

def asItems : List FileData → List Value
  | [] => []
  | x :: xs => asValue x :: asItems xs

def asEntries : List (FileData × FileData) → List (Scalar × Value)
  | [] => []
  | (k, d) :: es => (k.asKey, asValue d) :: asEntries es

end

end FileData

end ApiCompiler
