import ApiCompiler.Yaml.Token

/-!
# Nodes of a YAML text

The tree of a text: scalars, lists and maps with their tags, in which an alias is replaced by the
node that its anchor names.
-/

set_option autoImplicit false

namespace ApiCompiler.Yaml

/-- A node; the tag of a scalar that is written plainly and has none is left to its text. -/
inductive Node where
  | scalar (text : List Char) (plain : Bool) (tag : Option String)
  | list (items : List Node) (tag : Option String)
  | map (entries : List (Node × Node)) (tag : Option String)

/-- Nodes by anchor, the latest first. -/
abbrev Anchors := List (String × Node)

namespace Node

/-- The empty plain scalar. -/
def empty : Node := .scalar [] true none

/-- Properties in front of a node, in any order, each at most once. -/
def readProperties : List Token → Option String × Option String × List Token
  | .anchor a :: .tag t :: ts => (some a, some t, ts)
  | .tag t :: .anchor a :: ts => (some a, some t, ts)
  | .anchor a :: ts => (some a, none, ts)
  | .tag t :: ts => (none, some t, ts)
  | ts => (none, none, ts)

def nextIs (ts : List Token) (wanted : List Token) : Bool :=
  match ts.head? with
  | some t => wanted.contains t
  | none => false

/-- A parsed part with the anchors known after it and the tokens left. -/
abbrev Read (α : Type) := α × Anchors × List Token

mutual

/-- Reads a node. Block collections are allowed where `block` holds, and a list without indentation
of its own where `bare` holds. -/
def parse (block bare : Bool) : Nat → Anchors → List Token → Option (Read Node)
  | 0, _, _ => none
  | bound + 1, anchors, ts =>
    match ts with
    | .reuse name :: ts => (anchors.lookup name).map fun node => (node, anchors, ts)
    | ts =>
      let (anchor, tag, ts) := readProperties ts
      let content : Option (Read Node) :=
        if bare && nextIs ts [.blockEntry] then
          (parseBareItems bound anchors ts).map fun (xs, a, ts) => (.list xs tag, a, ts)
        else match ts with
          | .scalar text plain :: ts =>
            some (.scalar text (plain || tag == some "!") (if tag = some "!" then none else tag),
              anchors, ts)
          | .flowSequenceStart :: ts =>
            (parseFlowItems true bound anchors ts).map fun (xs, a, ts) => (.list xs tag, a, ts)
          | .flowMappingStart :: ts =>
            (parseFlowEntries true bound anchors ts).map fun (es, a, ts) => (.map es tag, a, ts)
          | ts =>
            if block && nextIs ts [.blockSequenceStart] then
              (parseItems bound anchors (ts.drop 1)).map fun (xs, a, ts) => (.list xs tag, a, ts)
            else if block && nextIs ts [.blockMappingStart] then
              (parseEntries bound anchors (ts.drop 1)).map fun (es, a, ts) => (.map es tag, a, ts)
            else if anchor.isSome || tag.isSome then some (.scalar [] true tag, anchors, ts)
            else none
      content.map fun (node, anchors, ts) =>
        (node, (anchor.map fun name => (name, node)).toList ++ anchors, ts)

def parseOrEmpty (block bare : Bool) (stops : List Token) :
    Nat → Anchors → List Token → Option (Read Node)
  | 0, _, _ => none
  | bound + 1, anchors, ts =>
    if nextIs ts stops then some (empty, anchors, ts) else parse block bare bound anchors ts

def parseItems : Nat → Anchors → List Token → Option (Read (List Node))
  | 0, _, _ => none
  | bound + 1, anchors, ts =>
    match ts with
    | .blockEntry :: ts => do
      let (x, anchors, ts) ← parseOrEmpty true false [.blockEntry, .blockEnd] bound anchors ts
      let (xs, anchors, ts) ← parseItems bound anchors ts
      return (x :: xs, anchors, ts)
    | .blockEnd :: ts => some ([], anchors, ts)
    | _ => none

/-- Reads the items of a block list without indentation of its own. -/
def parseBareItems : Nat → Anchors → List Token → Option (Read (List Node))
  | 0, _, _ => none
  | bound + 1, anchors, ts =>
    match ts with
    | .blockEntry :: ts => do
      let (x, anchors, ts) ←
        parseOrEmpty true false [.blockEntry, .key, .value, .blockEnd] bound anchors ts
      let (xs, anchors, ts) ← parseBareItems bound anchors ts
      return (x :: xs, anchors, ts)
    | ts => some ([], anchors, ts)

def parseEntries : Nat → Anchors → List Token → Option (Read (List (Node × Node)))
  | 0, _, _ => none
  | bound + 1, anchors, ts =>
    match ts with
    | .key :: ts => do
      let stops := [.key, .value, .blockEnd]
      let (k, anchors, ts) ← parseOrEmpty true true stops bound anchors ts
      let (v, anchors, ts) ←
        if nextIs ts [.value] then parseOrEmpty true true stops bound anchors (ts.drop 1)
        else some (empty, anchors, ts)
      let (es, anchors, ts) ← parseEntries bound anchors ts
      return ((k, v) :: es, anchors, ts)
    | .blockEnd :: ts => some ([], anchors, ts)
    | _ => none

/-- Reads the items of a flow list, up to its end; a key among them makes a map of one entry. -/
def parseFlowItems (first : Bool) : Nat → Anchors → List Token → Option (Read (List Node))
  | 0, _, _ => none
  | bound + 1, anchors, ts =>
    match ts with
    | .flowSequenceEnd :: ts => some ([], anchors, ts)
    | ts => do
      let ts ← if first then some ts else if nextIs ts [.flowEntry] then some (ts.drop 1) else none
      match ts with
      | .flowSequenceEnd :: ts => return ([], anchors, ts)
      | .key :: ts =>
        let (k, anchors, ts) ←
          parseOrEmpty false false [.value, .flowEntry, .flowSequenceEnd] bound anchors ts
        let (v, anchors, ts) ←
          if nextIs ts [.value] then
            parseOrEmpty false false [.flowEntry, .flowSequenceEnd] bound anchors (ts.drop 1)
          else some (empty, anchors, ts)
        let (xs, anchors, ts) ← parseFlowItems false bound anchors ts
        return (.map [(k, v)] none :: xs, anchors, ts)
      | ts =>
        let (x, anchors, ts) ← parse false false bound anchors ts
        let (xs, anchors, ts) ← parseFlowItems false bound anchors ts
        return (x :: xs, anchors, ts)

/-- Reads the entries of a flow map, up to its end; an item that is no entry is a key without
value. -/
def parseFlowEntries (first : Bool) :
    Nat → Anchors → List Token → Option (Read (List (Node × Node)))
  | 0, _, _ => none
  | bound + 1, anchors, ts =>
    match ts with
    | .flowMappingEnd :: ts => some ([], anchors, ts)
    | ts => do
      let ts ← if first then some ts else if nextIs ts [.flowEntry] then some (ts.drop 1) else none
      match ts with
      | .flowMappingEnd :: ts => return ([], anchors, ts)
      | .key :: ts =>
        let (k, anchors, ts) ←
          parseOrEmpty false false [.value, .flowEntry, .flowMappingEnd] bound anchors ts
        let (v, anchors, ts) ←
          if nextIs ts [.value] then
            parseOrEmpty false false [.flowEntry, .flowMappingEnd] bound anchors (ts.drop 1)
          else some (empty, anchors, ts)
        let (es, anchors, ts) ← parseFlowEntries false bound anchors ts
        return ((k, v) :: es, anchors, ts)
      | ts =>
        let (k, anchors, ts) ← parse false false bound anchors ts
        let (es, anchors, ts) ← parseFlowEntries false bound anchors ts
        return ((k, empty) :: es, anchors, ts)

end

def documentTokens : List Token := [.directive, .documentStart, .documentEnd, .streamEnd]

def dropEnds (ts : List Token) : List Token := ts.dropWhile (· == .documentEnd)

/-- Reads the only node of a text; a text without documents has none. The outer `none` stands for
malformed text. -/
def ofTokens (ts : List Token) : Option (Option Node) := do
  let bound := 2 * ts.length + 4
  let (node, ts) ←
    if nextIs ts [.streamEnd] then some (none, ts)
    else if nextIs ts [.directive, .documentStart, .documentEnd] then
      let ts := dropEnds ts
      if nextIs ts [.streamEnd] then some (none, ts)
      else
        match ts.dropWhile (· == .directive) with
        | .documentStart :: ts =>
          (parseOrEmpty true false documentTokens bound [] ts).map fun (n, _, ts) => (some n, ts)
        | _ => none
    else (parse true false bound [] ts).map fun (n, _, ts) => (some n, ts)
  if dropEnds ts = [.streamEnd] then return node else none

end Node

end ApiCompiler.Yaml
