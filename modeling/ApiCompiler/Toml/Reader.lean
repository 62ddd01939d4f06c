import ApiCompiler.Failure
import ApiCompiler.Toml.Scalar

/-!
# Reading TOML

A text as a map of tables. Each table is opened once; dotted keys open tables on their way, which a
header may not open again; inline tables and arrays cannot be extended; no value is written twice.
-/

set_option autoImplicit false

namespace ApiCompiler.Toml

abbrev Key := List String

abbrev Entries := List (Scalar × Value)

/-- What has been read: the root table, the tables opened so far, those that dotted keys opened
since the last header, the keys that cannot be extended, and how deep the values nest. -/
structure State where
  root : Entries := []
  opened : List Key := []
  pending : List Key := []
  frozen : List Key := []
  deepest : Nat := 0

namespace State

/-- Whether a key is, or lies inside of, one that cannot be extended. -/
def isFrozen (s : State) (key : Key) : Bool :=
  !key.isEmpty && s.frozen.any fun f => f.isPrefixOf key

end State

/-- Applies a change to the table at a key, creating tables on the way. The last table of an array
stands for the array where `inArrays` holds. -/
def updateAt (inArrays : Bool) (change : Entries → Option Entries) : Key → Entries → Option Entries
  | [], es => change es
  | k :: key, es =>
    match Value.lookup (.text k) es with
    | none => (updateAt inArrays change key []).map fun t => Value.insert (.text k) (.map t) es
    | some (.map t) =>
      (updateAt inArrays change key t).map fun t => Value.insert (.text k) (.map t) es
    | some (.list xs) =>
      if !inArrays then none
      else match xs.getLast? with
        | some (.map t) => (updateAt inArrays change key t).map fun t =>
            Value.insert (.text k) (.list (xs.dropLast ++ [.map t])) es
        | _ => none
    | some (.scalar _) => none

def addNew (name : String) (v : Value) (es : Entries) : Option Entries :=
  if (Value.lookup (.text name) es).isSome then none else some (es ++ [(.text name, v)])

/-- Appends an empty table to the array under a name, creating the array if there is none. -/
def appendTable (name : String) (es : Entries) : Option Entries :=
  match Value.lookup (.text name) es with
  | none => some (es ++ [(.text name, .list [.map []])])
  | some (.list xs) => some (Value.insert (.text name) (.list (xs ++ [.map []])) es)
  | some _ => none

def isKeyChar (c : Char) : Bool :=
  Number.isDigit c || ('a' ≤ c && c ≤ 'z') || ('A' ≤ c && c ≤ 'Z') || c == '-' || c == '_'

def readKeyPart (cs : List Char) : Option (String × List Char) :=
  match cs with
  | '"' :: rest =>
    (readBasic false (rest.length + 1) [] rest).map fun (t, r) => (String.ofList t, r)
  | '\'' :: rest =>
    (readLiteral false (rest.length + 1) [] rest).map fun (t, r) => (String.ofList t, r)
  | cs =>
    let name := cs.takeWhile isKeyChar
    if name = [] then none else some (String.ofList name, cs.drop name.length)

def readKey : Nat → List Char → Option (Key × List Char)
  | 0, _ => none
  | bound + 1, cs =>
    (readKeyPart cs).bind fun (part, cs) =>
      match skipGap cs with
      | '.' :: rest => (readKey bound (skipGap rest)).map fun (key, r) => (part :: key, r)
      | cs => some ([part], cs)

def skipComment (cs : List Char) : Option (List Char) :=
  match cs with
  | '#' :: rest =>
    let body := rest.takeWhile (· != '\n')
    if body.any isIllegal then none else some (rest.drop body.length)
  | cs => some cs

/-- Skips blanks, line breaks and comments between the items of an array. -/
def skipBetween : Nat → List Char → Option (List Char)
  | 0, cs => some cs
  | bound + 1, cs =>
    match cs.dropWhile fun c => isGap c || c == '\n' with
    | '#' :: rest => (skipComment ('#' :: rest)).bind (skipBetween bound)
    | cs => some cs

/-- Whether a value is a table or an array. -/
def isContainer : Value → Bool
  | .scalar _ => false
  | _ => true

mutual

def readValue : Nat → List Char → Option (Value × List Char)
  | 0, _ => none
  | bound + 1, cs =>
    match cs with
    | '[' :: rest => do
      let rest ← skipBetween (rest.length + 1) rest
      (readItems bound rest).map fun (xs, r) => (.list xs, r)
    | '{' :: rest =>
      match skipGap rest with
      | '}' :: rest => some (.map [], rest)
      | rest => (readInline bound {} rest).map fun (es, r) => (.map es, r)
    | cs => (readScalar cs).map fun (s, r) => (.scalar s, r)

/-- Reads the items of an array up to its end; a comma may follow the last one. -/
def readItems : Nat → List Char → Option (List Value × List Char)
  | 0, _ => none
  | bound + 1, cs =>
    match cs with
    | ']' :: rest => some ([], rest)
    | cs => do
      let (x, rest) ← readValue bound cs
      let rest ← skipBetween (rest.length + 1) rest
      match rest with
      | ']' :: rest => return ([x], rest)
      | ',' :: rest =>
        let rest ← skipBetween (rest.length + 1) rest
        let (xs, rest) ← readItems bound rest
        return (x :: xs, rest)
      | _ => none

def readInline : Nat → State → List Char → Option (Entries × List Char)
  | 0, _, _ => none
  | bound + 1, s, cs => do
    let (key, rest) ← readKey (cs.length + 1) cs
    let rest ← match rest with
      | '=' :: rest => some (skipGap rest)
      | _ => none
    let (v, rest) ← readValue bound rest
    if s.isFrozen key then none
    else
      let root ← updateAt false (addNew (key.getLastD "") v) key.dropLast s.root
      match skipGap rest with
      | '}' :: rest => return (root, rest)
      | ',' :: rest =>
        let frozen := if isContainer v then key :: s.frozen else s.frozen
        readInline bound { s with root, frozen } (skipGap rest)
      | _ => none

end

def State.assign (s : State) (header key : Key) (v : Value) : Option State :=
  let inner := (List.range key.length).drop 1 |>.map fun n => header ++ key.take n
  let target := header ++ key.dropLast
  if inner.any s.opened.contains ∨ s.isFrozen target then none
  else
    (updateAt true (addNew (key.getLastD "") v) target s.root).map fun root =>
      { s with
        root
        pending := inner ++ s.pending
        deepest := max s.deepest v.depth
        frozen := if isContainer v then (header ++ key) :: s.frozen else s.frozen }

/-- Takes the tables that dotted keys opened for opened. -/
def State.settle (s : State) : State :=
  { s with opened := s.pending ++ s.opened, pending := [] }

def State.openTable (s : State) (key : Key) : Option State :=
  let s := s.settle
  if s.opened.contains key ∨ s.isFrozen key then none
  else (updateAt true some key s.root).map fun root => { s with root, opened := key :: s.opened }

/-- Opens the next table of an array by its header. -/
def State.openItem (s : State) (key : Key) : Option State :=
  let s := s.settle
  if s.isFrozen key then none
  else
    (updateAt true (appendTable (key.getLastD "")) key.dropLast s.root).map fun root =>
      { s with
        root
        opened := key :: s.opened.filter fun k => !key.isPrefixOf k
        frozen := s.frozen.filter fun k => !key.isPrefixOf k }

/-- Reads the header of a table or of an item of an array. -/
def readHeader (s : State) (cs : List Char) : Option (Key × State × List Char) :=
  match cs with
  | '[' :: rest => do
    let (key, rest) ← readKey (rest.length + 1) (skipGap rest)
    if startsWith [']', ']'] rest then
      let s ← s.openItem key
      return (key, s, rest.drop 2)
    else none
  | rest => do
    let (key, rest) ← readKey (rest.length + 1) (skipGap rest)
    match rest with
    | ']' :: rest =>
      let s ← s.openTable key
      return (key, s, rest)
    | _ => none

def readAssignment (s : State) (header : Key) (cs : List Char) : Option (State × List Char) := do
  let (key, rest) ← readKey (cs.length + 1) cs
  match rest with
  | '=' :: rest =>
    let rest := skipGap rest
    let (v, rest) ← readValue (rest.length + 2) rest
    let s ← s.assign header key v
    return (s, skipGap rest)
  | _ => none

/-- Reads statements line by line. -/
def readLines : Nat → Key → State → List Char → Option State
  | 0, _, _, _ => none
  | bound + 1, header, s, cs =>
    match skipGap cs with
    | [] => some s
    | '\n' :: rest => readLines bound header s rest
    | c :: rest => do
      let (header, s, rest) ←
        if c = '[' then readHeader s rest |>.map fun (h, s, r) => (h, s, skipGap r)
        else if c = '#' then some (header, s, c :: rest)
        else (readAssignment s header (c :: rest)).map fun (s, r) => (header, s, r)
      let rest ← skipComment rest
      match rest with
      | [] => return s
      | '\n' :: rest => readLines bound header s rest
      | _ => none

/-- Line breaks of two characters as single ones. -/
def joinBreaks : List Char → List Char
  | '\r' :: '\n' :: cs => '\n' :: joinBreaks cs
  | c :: cs => c :: joinBreaks cs
  | [] => []

/-- How deep values may nest, as far as the interpreter's stack goes. -/
def nestingBound : Nat := 470

def read (s : String) : Except Failure Value :=
  let cs := joinBreaks s.toList
  match readLines (cs.length + 1) [] {} cs with
  | some state =>
    if nestingBound < state.deepest then .error .nestedTooDeep else .ok (.map state.root)
  | none => .error .malformedToml

end ApiCompiler.Toml
