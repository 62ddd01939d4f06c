import ApiCompiler.Failure
import ApiCompiler.Table
import ApiCompiler.Value.Shown

/-!
# Checked reading of records

Fields are read one by one and all their faults are collected, in the order in which the fields are
read. A `Check` turns a data value into a typed one or lists the faults of the value, with places
relative to it. Texts are only read from texts; truth values also from the numbers 0 and 1 and from
the usual words, in any case.
-/

set_option autoImplicit false

namespace ApiCompiler

/-- A value, or all the faults that were found instead. -/
inductive Checked (α : Type) where
  | good (a : α)
  | bad (faults : List Fault)

namespace Checked

variable {α β : Type}

/-- The faults that were found. -/
def faults : Checked α → List Fault
  | good _ => []
  | bad fs => fs

/-- Applies a function; faults of both sides are kept, those of the function first. -/
def seq (f : Checked (α → β)) (x : Checked α) : Checked β :=
  match f, x with
  | good f, good a => good (f a)
  | f, x => bad (f.faults ++ x.faults)

instance : Applicative Checked where
  pure := good
  seq f x := f.seq (x ())

/-- Puts the faults at a place further outside. -/
def under (key : Scalar) : Checked α → Checked α
  | good a => good a
  | bad fs => bad (fs.map fun f => { f with place := key :: f.place })

/-- One fault of the value itself. -/
def fault (kind : FaultKind) : Checked α := bad [⟨[], kind⟩]

/-- The value, or the failure that lists the faults. -/
def toExcept : Checked α → Except Failure α
  | good a => .ok a
  | bad fs => .error (.invalid fs)

def items (check : Value → Checked α) : Nat → List Value → Checked (List α)
  | _, [] => good []
  | n, v :: vs => (List.cons <$> (check v).under (.int n)).seq (items check (n + 1) vs)

end Checked

/-- A way to read a typed value. -/
abbrev Check (α : Type) := Value → Checked α

namespace Check

variable {α : Type}

def text : Check String
  | .text s => .good s
  | _ => .fault .textExpected

/-- Reads nothing from the null value, and anything else as given. -/
def optional (check : Check α) : Check (Option α)
  | .null => .good none
  | v => some <$> check v

def list (check : Check α) : Check (List α)
  | .list vs => Checked.items check 0 vs
  | _ => .fault .listExpected

def boolWords : Table Bool := [
  ("0", false), ("off", false), ("f", false), ("false", false), ("n", false), ("no", false),
  ("1", true), ("on", true), ("t", true), ("true", true), ("y", true), ("yes", true)]

def lowerLetters (s : String) : String := s.map Char.toLower

/-- Reads a truth value. Words and whole numbers that are none can be told from other values. -/
def bool : Check Bool
  | .bool b => .good b
  | .text s =>
    match boolWords.get? (lowerLetters s) with
    | some b => .good b
    | none => .fault .boolUnreadable
  | .int n => if n = 0 then .good false else if n = 1 then .good true else .fault .boolUnreadable
  | .scalar s =>
    match s.ratio? with
    | some (n, d) =>
      if n = 0 then .good false
      else if n = d then .good true
      else if n % d = 0 then .fault .boolUnreadable
      else .fault .boolExpected
    | none => .fault .boolExpected
  | _ => .fault .boolExpected

/-- Reads one of a list of names. -/
def oneOf (ofName? : String → Option α) : Check α
  | .text s =>
    match ofName? s with
    | some a => .good a
    | none => .fault .notAllowed
  | _ => .fault .notAllowed

/-- Reads the entries of a map whose keys are texts. A key that is none is a fault of its own, next
to those of its value. -/
def entries (check : Check α) : List (Scalar × Value) → Checked (Table α)
  | [] => .good []
  | (k, v) :: rest =>
    let key : Checked String := match k with
      | .text s => .good s
      | k => (Checked.under (.text "[key]") (.fault .textExpected)).under k.asPlace
    ((fun k v t => (k, v) :: t) <$> key).seq ((check v).under k.asPlace) |>.seq
      (entries check rest)

/-- Reads a map with texts as keys. -/
def table (check : Check α) : Check (Table α)
  | .map es => entries check es
  | _ => .fault .mapExpected

/-- Reads the entries of a map whose keys are texts, taking the values as they are. -/
def settings : Check (List (Scalar × Value)) := fun v =>
  (fun t => t.map fun (k, v) => (.text k, v)) <$> table Checked.good v

/-- Reads a field of a record; a field that is not there has its default or is missing. -/
def field (name : String) (default : Option α) (check : Check α)
    (es : List (Scalar × Value)) : Checked α :=
  Checked.under (.text name) <|
    match Value.lookup (.text name) es, default with
    | some v, _ => check v
    | none, some a => .good a
    | none, none => .fault .missing

end Check

end ApiCompiler
