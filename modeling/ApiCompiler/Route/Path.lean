import ApiCompiler.Table
import ApiCompiler.Text.Blank

/-!
# Route paths

Composition of path fragments, and normalisation of a path to its visible template together with the
patterns captured from placeholders of the form `{name:pattern}`. Slashes inside braces do not
separate segments, so a pattern may contain them.
-/

set_option autoImplicit false

namespace ApiCompiler.Path

open Text (trimChars dropEndWhile)

def dropFinalSlashes (cs : List Char) : List Char :=
  dropEndWhile (· == '/') cs

/-- The inherited front part of a path: nothing for the empty path and the root, otherwise the given
path with a leading slash and without final ones. -/
def frontPart (parent : List Char) : List Char :=
  if parent = [] ∨ parent = ['/'] then []
  else if parent.head? = some '/' then dropFinalSlashes parent
  else dropFinalSlashes ('/' :: parent)

/-- Appends a method fragment to what stands in front of it; the root fragment adds nothing. -/
def appendFragment (front fragment : List Char) : List Char :=
  if fragment = ['/'] then front
  else
    let front :=
      if fragment.head? ≠ some '/' ∧ front.getLast? ≠ some '/' then front ++ ['/'] else front
    front ++ dropFinalSlashes fragment

/-- Gives a path its leading slash and takes one final slash off, the root excepted. -/
def close (cs : List Char) : List Char :=
  let cs := if cs.head? = some '/' then cs else '/' :: cs
  if cs ≠ ['/'] ∧ cs.getLast? = some '/' then cs.dropLast else cs

/-- The composed path of a class fragment and a method fragment below a parent path. -/
def joinChars (cls method : Option (List Char)) (parent : List Char) : Option (List Char) :=
  match cls, method with
  | none, none => none
  | _, _ =>
    let out := frontPart parent ++ cls.getD []
    some (close (match method with
      | none => out
      | some fragment => appendFragment out fragment))

/-- The composed path of a class fragment and a method fragment below a parent path; there is none
when neither fragment is declared. -/
def join (cls method : Option String) (parent : String) : Option String :=
  (joinChars (cls.map String.toList) (method.map String.toList) parent.toList).map String.ofList

/-- Splits at slashes outside of braces; `depth` counts the braces that are open. -/
def segments : Nat → List Char → List (List Char)
  | _, [] => [[]]
  | depth, c :: cs =>
    let depth := if c = '{' then depth + 1 else if c = '}' then depth - 1 else depth
    if c = '/' ∧ depth = 0 then [] :: segments depth cs
    else match segments depth cs with
      | [] => [[c]]
      | segment :: rest => (c :: segment) :: rest

/-- A segment as it is shown, with the pattern that it captures for a name. -/
structure Segment where
  shown : List Char
  captured : Option (List Char × List Char)
  deriving DecidableEq, Repr

/-- Reads a segment: one between braces with a colon inside is shown by the name before the colon
alone and captures the pattern behind it. -/
def readSegment (cs : List Char) : Segment :=
  let colon := cs.findIdx (· == ':')
  if cs.head? = some '{' ∧ cs.getLast? = some '}' ∧ colon < cs.length then
    let name := trimChars ((cs.take colon).drop 1)
    let pattern := trimChars ((cs.drop (colon + 1)).dropLast)
    ⟨'{' :: name ++ ['}'], some (name, pattern)⟩
  else ⟨cs, none⟩

/-- The non-empty segments of a path, read one by one. -/
def readSegments (path : List Char) : List Segment :=
  ((segments 0 (trimChars path)).filter (· ≠ [])).map readSegment

/-- A visible path template with the patterns of its placeholders. -/
structure Template where
  text : String
  patterns : Table String
  deriving Repr

/-- The normal form of a path: its segments behind single slashes, placeholders shown by name, and
the last pattern captured for each name. -/
def normalize (path : String) : Template :=
  let parts := readSegments path.toList
  { text := String.ofList ('/' :: List.intercalate ['/'] (parts.map Segment.shown))
    patterns := Table.ofList (parts.filterMap fun s =>
      s.captured.map fun (name, pattern) => (String.ofList name, String.ofList pattern)) }

/-- Placeholder names of a template. Outside of braces there is no candidate; inside, the candidate
holds the characters read so far, last first. -/
def placeholdersFrom : Option (List Char) → List Char → List (List Char)
  | _, [] => []
  | candidate, c :: cs =>
    if c = '{' then placeholdersFrom (some []) cs
    else match candidate with
      | none => placeholdersFrom none cs
      | some acc =>
        if c = ':' then placeholdersFrom none cs
        else if c = '}' then
          if acc = [] then placeholdersFrom none cs
          else acc.reverse :: placeholdersFrom none cs
        else placeholdersFrom (some (c :: acc)) cs

/-- The names between braces in a template, from left to right; a name is not empty and holds
neither brace nor colon. -/
def placeholders (template : String) : List String :=
  (placeholdersFrom none template.toList).map String.ofList

end ApiCompiler.Path
