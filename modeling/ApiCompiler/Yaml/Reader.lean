import ApiCompiler.FileData
import ApiCompiler.Yaml.Node
import ApiCompiler.Yaml.Plain

/-!
# Reading YAML

The data of a node: tags say what a scalar or a collection stands for, and the kind of the node
where there is none. Entries merged into a map with `<<` come first and yield to the map's own
entries. A collection is filled after everything around it has been built, so that of several faults
the one that is nested least counts, and the first one of these.
-/

set_option autoImplicit false

namespace ApiCompiler.Yaml

/-- Data, or the fault that counts with the round in which it is found. -/
abbrev Attempt (α : Type) := Except (Nat × Failure) α

namespace Attempt

variable {α β γ : Type}

def now (x : Except Failure α) : Attempt α := x.mapError fun f => (0, f)

def malformed : Attempt α := .error (0, .malformedYaml)

/-- What is done in the round after. -/
def later (x : Attempt α) : Attempt α := x.mapError fun (n, f) => (n + 1, f)

/-- Two parts, of which the first one comes first in each round. -/
def both (g : α → β → γ) : Attempt α → Attempt β → Attempt γ
  | .ok a, .ok b => .ok (g a b)
  | .ok _, .error e | .error e, .ok _ => .error e
  | .error (n, f), .error (m, f') => .error (if n ≤ m then (n, f) else (m, f'))

def all : List (Attempt α) → Attempt (List α)
  | [] => .ok []
  | x :: xs => both List.cons x (all xs)

end Attempt

/-- The short name of a tag of the core schema. -/
def coreTag (tag : String) : Option String :=
  let cs := tag.toList
  let long := "!<tag:yaml.org,2002:".toList
  if ['!', '!'].isPrefixOf cs then some (String.ofList (cs.drop 2))
  else if long.isPrefixOf cs ∧ cs.getLast? = some '>' then
    some (String.ofList (cs.drop long.length).dropLast)
  else none

def boolWords : List (String × Bool) := [
  ("yes", true), ("no", false), ("true", true), ("false", false), ("on", true), ("off", false)]

/-- The number of a character in base sixty-four. -/
def sixBits? (c : Char) : Option Nat :=
  if 'A' ≤ c ∧ c ≤ 'Z' then some (c.toNat - 65)
  else if 'a' ≤ c ∧ c ≤ 'z' then some (c.toNat - 71)
  else if Number.isDigit c then some (c.toNat + 4)
  else if c = '+' then some 62
  else if c = '/' then some 63
  else none

/-- The bytes of a text in base sixty-four, with the `place` of the next character in its group of
four and the `rest` of the bits in front of it. Other characters are skipped; a group has two
characters at least and is filled up with equals signs, behind which nothing counts. -/
def sixtyFour (place rest pads : Nat) : List Char → Option (List UInt8)
  | [] => if place = 0 then some [] else none
  | c :: cs =>
    if c = '=' then
      if 2 ≤ place ∧ 4 ≤ place + pads + 1 then some []
      else sixtyFour place rest (if 2 ≤ place then pads + 1 else pads) cs
    else match sixBits? c, place with
      | none, _ => sixtyFour place rest pads cs
      | some n, 0 => sixtyFour 1 n 0 cs
      | some n, 1 => (sixtyFour 2 (n % 16) 0 cs).map (UInt8.ofNat (rest * 4 + n / 16) :: ·)
      | some n, 2 => (sixtyFour 3 (n % 4) 0 cs).map (UInt8.ofNat (rest * 16 + n / 4) :: ·)
      | some n, _ => (sixtyFour 0 0 0 cs).map (UInt8.ofNat (rest * 64 + n) :: ·)

/-- The data of a scalar with a tag. -/
def taggedData (cs : List Char) (tag : String) : Except Failure FileData :=
  match coreTag tag with
  | some "str" => .ok (.scalar (.text (String.ofList cs)))
  | some "null" => .ok (.scalar .null)
  | some "int" => (intValue cs).map .scalar
  | some "float" => (floatValue cs).map .scalar
  | some "bool" =>
    let word := Text.lower (String.ofList cs)
    match boolWords.lookup word with
    | some b => .ok (.scalar (.bool b))
    | none => .error (.unknownWord word)
  | some "timestamp" =>
    match readDate cs with
    | some parts => (dateValue parts).map .scalar
    | none => .error (.missingAttribute "NoneType" "groupdict")
  | some "binary" =>
    if cs.all (·.toNat < 128) then
      match sixtyFour 0 0 0 cs with
      | some content => .ok (.bytes content)
      | none => .error .malformedYaml
    else .error .malformedYaml
  | _ => .error .malformedYaml

def scalarData (cs : List Char) (plain : Bool) : Option String → Except Failure FileData
  | some tag => taggedData cs tag
  | none =>
    if plain then (plainValue cs).map .scalar else .ok (.scalar (.text (String.ofList cs)))

/-- What a tag makes of a collection, which is built before what is in it. -/
inductive Collection where
  | seq | map | set
  /-- A list of pairs. -/
  | pairs
  deriving DecidableEq

def Collection.ofTag? : String → Option Collection
  | "seq" => some .seq
  | "map" => some .map
  | "set" => some .set
  | "omap" | "pairs" => some .pairs
  | _ => none

/-- What a node of a kind that is a collection by itself is by its tag. -/
def Collection.of? (kind : Collection) : Option String → Option Collection
  | none | some "!" => some kind
  | some tag => (coreTag tag).bind ofTag?

namespace Node

/-- A sign in key position: a plain one, or one with its tag. -/
def isSign (sign name : String) : Node → Bool
  | .scalar cs plain none => plain && String.ofList cs == sign
  | .scalar _ _ (some tag) | .list _ (some tag) | .map _ (some tag) => coreTag tag == some name
  | _ => false

/-- The data of a key, which is a scalar; an equals sign is a text. -/
def keyData (k : Node) : Attempt FileData :=
  match k with
  | .scalar cs plain tag =>
    if k.isSign "=" "value" then .ok (.scalar (.text (String.ofList cs)))
    else Attempt.now (scalarData cs plain tag)
  | _ => Attempt.malformed

mutual

/-- How deep a node nests collections. -/
def depth : Node → Nat
  | .scalar .. => 0
  | .list items _ => depthOfItems items + 1
  | .map entries _ => depthOfEntries entries + 1

def depthOfItems : List Node → Nat
  | [] => 0
  | x :: xs => max (depth x) (depthOfItems xs)

def depthOfEntries : List (Node × Node) → Nat
  | [] => 0
  | (k, v) :: es => max (max (depth k) (depth v)) (depthOfEntries es)

end

abbrev Entry := FileData × FileData

/-- The entries of a map: those merged in, and its own. -/
def filled (parts : Except Failure (List (Attempt Entry) × List (Attempt Entry))) :
    Attempt (List Entry) := do
  let (merged, own) ← Attempt.now parts
  let es ← Attempt.all (merged ++ own)
  return FileData.entriesOf es

mutual

def data : Node → Attempt FileData
  | .scalar cs plain tag =>
    match (tag.bind coreTag).bind Collection.ofTag? with
    | some _ => Attempt.malformed.later
    | none => Attempt.now (scalarData cs plain tag)
  | .list items tag =>
    match Collection.seq.of? tag with
    | none => Attempt.malformed
    | some .seq => (Attempt.all (itemData items)).later.map .list
    | some .pairs => (Attempt.all (pairData items)).later.map .list
    | some _ => Attempt.malformed.later
  | .map entries tag =>
    match Collection.map.of? tag with
    | none => Attempt.malformed
    | some .map => (filled (entryData entries)).later.map .map
    | some .set => (filled (entryData entries)).later.map fun es => .set (es.map Prod.fst)
    | some _ => Attempt.malformed.later

def itemData : List Node → List (Attempt FileData)
  | [] => []
  | x :: xs => data x :: itemData xs

/-- The data of a list of pairs: each is written as a map of one entry. -/
def pairData : List Node → List (Attempt FileData)
  | [] => []
  | .map [(k, v)] _ :: xs =>
    Attempt.both (fun k v => .list [k, v]) (data k) (data v) :: pairData xs
  | _ :: xs => Attempt.malformed :: pairData xs

/-- The entries that are merged into a map, and the map's own. -/
def entryData : List (Node × Node) →
    Except Failure (List (Attempt Entry) × List (Attempt Entry))
  | [] => .ok ([], [])
  | (k, v) :: es =>
    if k.isSign "<<" "merge" then do
      let more ← mergedData v
      let (merged, own) ← entryData es
      return (more ++ merged, own)
    else do
      let (merged, own) ← entryData es
      return (merged, Attempt.both Prod.mk k.keyData (data v) :: own)

/-- The entries that a merged node brings into a map: those of a map, or of several maps of which
the first counts most. -/
def mergedData : Node → Except Failure (List (Attempt Entry))
  | .map entries _ => (entryData entries).map fun (merged, own) => merged ++ own
  | .list items _ => mergedItems items
  | .scalar .. => .error .malformedYaml

def mergedItems : List Node → Except Failure (List (Attempt Entry))
  | [] => .ok []
  | .map entries _ :: xs => do
    let (merged, own) ← entryData entries
    let more ← mergedItems xs
    return more ++ (merged ++ own)
  | _ :: _ => .error .malformedYaml

end

end Node

/-- How deep a text may nest collections, as far as the interpreter's stack goes. -/
def nestingBound : Nat := 470

/-- Reads the data of a YAML text; a text without documents has the null value. -/
def read (s : String) : Except Failure FileData :=
  match (tokenize s.toList).bind Node.ofTokens with
  | none => .error .malformedYaml
  | some none => .ok (.scalar .null)
  | some (some node) =>
    if nestingBound < node.depth then .error .nestedTooDeep
    else node.data.mapError Prod.snd

end ApiCompiler.Yaml
