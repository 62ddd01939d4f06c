import ApiCompiler.Text.Case

/-!
# Console output

Texts with style tags, which leave no trace on a console without styles, and tables with borders. A
tag stands in square brackets and begins with a small letter or one of `#`, `/` and `@`; a backslash
in front of the bracket makes it plain text.
-/

set_option autoImplicit false

namespace ApiCompiler.Console

def opensTag (c : Char) : Bool := ('a' ≤ c && c ≤ 'z') || c == '#' || c == '/' || c == '@'

/-- The number of characters of the tag that a text begins with, its brackets included. -/
def tagLength? : List Char → Option Nat
  | '[' :: c :: cs =>
    if opensTag c then
      let body := cs.takeWhile fun d => d != ']' && d != '['
      match cs.drop body.length with
      | ']' :: _ => some (body.length + 3)
      | _ => none
    else none
  | _ => none

/-- Removes style tags. Of the backslashes before a tag each pair is one, and one that is left over
keeps the tag as it is. -/
def plainChars : Nat → List Char → List Char
  | 0, cs => cs
  | _, [] => []
  | bound + 1, c :: cs =>
    let slashes := ((c :: cs).takeWhile (· == '\\')).length
    let rest := (c :: cs).drop slashes
    match tagLength? rest with
    | some n =>
      let shown := if slashes % 2 = 1 then rest.take n else []
      List.replicate (slashes / 2) '\\' ++ shown ++ plainChars bound (rest.drop n)
    | none =>
      if c = '\\' ∧ cs.head? = some '[' then '[' :: plainChars bound (cs.drop 1)
      else c :: plainChars bound cs

def plain (s : String) : String :=
  String.ofList (plainChars s.toList.length s.toList)

/-- Ranges of characters that take two columns. -/
def wideRanges : List (Nat × Nat) := [
  (0x1100, 0x115F), (0x2E80, 0x303E), (0x3041, 0x33FF), (0x3400, 0x4DBF), (0x4E00, 0x9FFF),
  (0xA000, 0xA4CF), (0xAC00, 0xD7A3), (0xF900, 0xFAFF), (0xFE30, 0xFE6F), (0xFF00, 0xFF60),
  (0xFFE0, 0xFFE6), (0x1F300, 0x1F64F), (0x1F680, 0x1F6FF), (0x1F900, 0x1F9FF),
  (0x20000, 0x3FFFD)]

/-- Ranges of characters that take no column of their own. -/
def zeroRanges : List (Nat × Nat) := [
  (0x0300, 0x036F), (0x0483, 0x0489), (0x0591, 0x05BD), (0x0610, 0x061A), (0x064B, 0x065F),
  (0x1AB0, 0x1AFF), (0x1DC0, 0x1DFF), (0x200B, 0x200F), (0x20D0, 0x20FF), (0xFE00, 0xFE0F),
  (0xFE20, 0xFE2F)]

def inRanges (n : Nat) (ranges : List (Nat × Nat)) : Bool :=
  ranges.any fun (first, last) => first ≤ n && n ≤ last

def width (s : String) : Nat :=
  s.toList.foldl (fun n c =>
    n + if inRanges c.toNat wideRanges then 2 else if inRanges c.toNat zeroRanges then 0 else 1) 0

/-- A cell of the given width with one blank on both sides. -/
def cell (columns : Nat) (s : String) : String :=
  " " ++ s ++ String.ofList (List.replicate (columns - width s + 1) ' ')

/-- A border: pieces of the widths of the columns between three kinds of corners. -/
def border (left line middle right : Char) (widths : List Nat) : String :=
  String.ofList (left :: List.intercalate [middle] (widths.map fun n => List.replicate (n + 2) line)
    ++ [right])

def row (bar : String) (widths : List Nat) (cells : List String) : String :=
  bar ++ bar.intercalate ((widths.zip cells).map fun (n, s) => cell n s) ++ bar

def widths : List String → List (List String) → List Nat
  | [], _ => []
  | head :: heads, rows =>
    ((head :: rows.map fun r => r.headD "").map width).foldl max 0 ::
      widths heads (rows.map List.tail)

def table (heads : List String) (rows : List (List String)) : List String :=
  let columns := widths heads rows
  [border '┏' '━' '┳' '┓' columns, row "┃" columns heads, border '┡' '━' '╇' '┩' columns]
    ++ rows.map (row "│" columns)
    ++ [border '└' '─' '┴' '┘' columns]

def linesText (lines : List String) : String := String.join (lines.map (· ++ "\n"))

end ApiCompiler.Console
