import ApiCompiler.Text.CaseTable

/-!
# Upper and lower case

Full case mapping of texts by the tables of `CaseTable`: a character may expand to several, and a
capital sigma becomes a final sigma where it ends a word.
-/

set_option autoImplicit false

namespace ApiCompiler.Text

def inRanges (ranges : List (Nat × Nat)) (n : Nat) : Bool :=
  ranges.any fun (first, last) => first ≤ n && n ≤ last

/-- The image of a code point under a list of case runs. -/
def shiftByRuns : List CaseRun → Nat → Nat
  | [], n => n
  | (first, last, step, shift) :: runs, n =>
    if first ≤ n && n ≤ last && (n - first) % step == 0 then (n + shift : Int).toNat
    else shiftByRuns runs n

/-- A cased character that the sigma rule stops at. -/
def isCased (c : Char) : Bool :=
  c.isAlpha || (c.toNat > 127 && inRanges casedRanges c.toNat)

/-- A character that the sigma rule looks through. -/
def isCaseIgnorable (c : Char) : Bool :=
  inRanges caseIgnorableRanges c.toNat

/-- Whether the first character that the sigma rule stops at is cased. -/
def meetsCased (cs : List Char) : Bool :=
  match cs.dropWhile isCaseIgnorable with
  | [] => false
  | c :: _ => isCased c

/-- Lower case of one character; `before` holds the preceding characters, nearest first. -/
def lowerChar (before : List Char) (c : Char) (after : List Char) : List Char :=
  if c.toNat < 128 then [c.toLower]
  else if c.toNat = 0x3A3 then
    [Char.ofNat (if meetsCased before && !meetsCased after then 0x3C2 else 0x3C3)]
  else if c.toNat = 0x130 then ['i', Char.ofNat 0x307]
  else [Char.ofNat (shiftByRuns lowerRuns c.toNat)]

/-- Lower case of a text whose preceding characters are `before`, nearest first. -/
def lowerFrom (before : List Char) : List Char → List Char
  | [] => []
  | c :: cs => lowerChar before c cs ++ lowerFrom (c :: before) cs

def upperChar (c : Char) : List Char :=
  if c.toNat < 128 then [c.toUpper]
  else match upperExpansions.lookup c.toNat with
    | some codes => codes.map Char.ofNat
    | none => [Char.ofNat (shiftByRuns upperRuns c.toNat)]

def lower (s : String) : String :=
  String.ofList (lowerFrom [] s.toList)

def upper (s : String) : String :=
  String.ofList (s.toList.flatMap upperChar)

end ApiCompiler.Text
