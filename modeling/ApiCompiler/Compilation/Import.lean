import ApiCompiler.Failure
import ApiCompiler.Types.World

/-!
# Import paths

What a dotted path names: a member of the declaring module, also inside of a class, or a known class
in its module. Module and member are divided by the first colon, or else by the last point.
-/

set_option autoImplicit false

namespace ApiCompiler

/-- The modules of known classes, and whether they hold modules. -/
def knownModules : Table Bool := [
  ("builtins", false), ("datetime", false), ("decimal", false), ("uuid", false), ("typing", false),
  ("io", false), ("collections", true), ("collections.abc", false)]

/-- Divides a text at the first occurrence of a character. -/
def splitFirst (c : Char) (s : String) : Option (String × String) :=
  let cs := s.toList
  if cs.contains c then
    let front := cs.takeWhile (· != c)
    some (String.ofList front, String.ofList (cs.drop (front.length + 1)))
  else none

/-- Divides a text at the last occurrence of a character; the first part is empty when there is
none. -/
def splitLast (c : Char) (s : String) : String × String :=
  match splitFirst c (String.ofList s.toList.reverse) with
  | some (back, front) =>
    (String.ofList front.toList.reverse, String.ofList back.toList.reverse)
  | none => ("", s)

/-- Divides a path into module and member. -/
def splitPath (path : String) : Except Failure (String × String) :=
  let (module, member) := (splitFirst ':' path).getD (splitLast '.' path)
  if module = "" ∨ member = "" then .error (.notImportable path) else .ok (module, member)

/-- Finds a module; the failure is about the first part of its name that is missing. -/
def findModule : Nat → String → Except Failure Unit
  | 0, name => .error (.missingModule name)
  | bound + 1, name =>
    if name = World.module ∨ knownModules.has name then .ok ()
    else
      let parent := (splitLast '.' name).1
      if parent = "" then .error (.missingModule name)
      else do
        findModule bound parent
        if (knownModules.get? parent).getD false then throw (.missingModule name)
        else throw (.notAPackage name parent)

namespace World

def nestedClass? (w : World) (t : TypeExpr) (name : String) : Option TypeExpr :=
  (w.declaredLineage t).findSome? fun c => (c.nested.get? name).map .declared

/-- A member of a module. -/
def moduleMember? (w : World) (module name : String) : Option TypeExpr :=
  if module = World.module then w.names.get? name
  else (Builtin.all.find? fun c =>
    c.qualname == name && (c.module == module || module == "io" && c.module == "_io")).map .builtin

def follow (w : World) : TypeExpr → List String → Option TypeExpr
  | t, [] => some t
  | t, part :: parts => (w.nestedClass? t part).bind fun u => follow w u parts

/-- The object that a path names. -/
def importPath (w : World) (path : String) : Except Failure TypeExpr := do
  let (module, member) ← splitPath path
  findModule (module.length + 1) module
  let found := match Text.split '.' member with
    | [] => none
    | part :: parts => (w.moduleMember? module part).bind fun t => w.follow t parts
  match found with
  | some t => return t
  | none => throw (.missingMember module member)

end World

end ApiCompiler
