import ApiCompiler.TextFormat

/-!
# Values that a text format can hold

Neither format holds every value. JSON text has no form for dates, moments, times of day and decimal
numbers in key position, and YAML text none for decimal numbers and times of day in any position.
A value has a text when all of its scalars have a form where they stand, and otherwise the first one
without a form decides how printing fails. A value that is put together from texts, truth values and
some given values is refused only as one of these is.
-/

set_option autoImplicit false

namespace ApiCompiler

/-- Where a scalar stands in a value: by itself, or as the key of a map. -/
inductive Position where
  | value | key
  deriving DecidableEq

namespace Value

mutual

/-- The scalars of a value with their positions, in the order in which they are written. -/
def scalars : Value → List (Position × Scalar)
  | .scalar s => [(.value, s)]
  | .list xs => itemScalars xs
  | .map es => entryScalars es

/-- The scalars of the items of a list. -/
def itemScalars : List Value → List (Position × Scalar)
  | [] => []
  | x :: xs => scalars x ++ itemScalars xs

/-- The scalars of the entries of a map, each key in front of its value. -/
def entryScalars : List (Scalar × Value) → List (Position × Scalar)
  | [] => []
  | (k, v) :: es => (.key, k) :: (scalars v ++ entryScalars es)

end

/-- Put together from texts, truth values and given values; the keys of maps are texts. -/
inductive MadeFrom (given : Value → Prop) : Value → Prop
  | given {v : Value} (h : given v) : MadeFrom given v
  | text (s : String) : MadeFrom given (.text s)
  | bool (b : Bool) : MadeFrom given (.bool b)
  | list {xs : List Value} (h : ∀ x ∈ xs, MadeFrom given x) : MadeFrom given (.list xs)
  | record {t : Table Value} (h : ∀ e ∈ t, MadeFrom given e.2) : MadeFrom given (.record t)

end Value

namespace TextFormat

/-- The failure with which a format refuses a scalar in a position. -/
def refusal? : TextFormat → Position × Scalar → Option Failure
  | .json, (.key, s) =>
    if Json.standsAsKey s then none else some (.keyWithoutText (Value.scalar s).kindName)
  | .yaml, (_, .time _) | .yaml, (_, .decimal _) => some .malformedYaml
  | _, _ => none

/-- The failure with which a format refuses a value: that of its first scalar without a form. -/
def refuses? (format : TextFormat) (v : Value) : Option Failure :=
  v.scalars.findSome? format.refusal?

variable {format : TextFormat} {e : Failure}

@[simp] theorem refusal?_text (position : Position) (s : String) :
    format.refusal? (position, .text s) = none := by
  cases format <;> cases position <;> rfl

@[simp] theorem refuses?_scalar (s : Scalar) :
    format.refuses? (.scalar s) = format.refusal? (.value, s) :=
  List.findSome?_singleton

theorem refuses?_eq_none_iff {v : Value} :
    format.refuses? v = none ↔ ∀ x ∈ v.scalars, format.refusal? x = none :=
  List.findSome?_eq_none_iff

theorem exists_refused_item {xs : List Value}
    (h : (Value.itemScalars xs).findSome? format.refusal? = some e) :
    ∃ x ∈ xs, format.refuses? x = some e := by
  induction xs with
  | nil => cases h
  | cons x xs ih =>
    rw [Value.itemScalars, List.findSome?_append, Option.or_eq_some_iff] at h
    rcases h with h | ⟨_, h⟩
    · exact ⟨x, List.mem_cons_self, h⟩
    · obtain ⟨y, hy, h⟩ := ih h
      exact ⟨y, List.mem_cons_of_mem _ hy, h⟩

theorem exists_refused_entry {t : Table Value} (h : format.refuses? (.record t) = some e) :
    ∃ x ∈ t, format.refuses? x.2 = some e := by
  unfold refuses? Value.record Value.scalars at h
  induction t with
  | nil => cases h
  | cons x t ih =>
    rw [List.map_cons, Value.entryScalars, List.findSome?_cons, refusal?_text,
      List.findSome?_append, Option.or_eq_some_iff] at h
    rcases h with h | ⟨_, h⟩
    · exact ⟨x, List.mem_cons_self, h⟩
    · obtain ⟨y, hy, h⟩ := ih h
      exact ⟨y, List.mem_cons_of_mem _ hy, h⟩

/-- What is put together from given values is refused as one of them is. -/
theorem exists_refused_given {given : Value → Prop} {v : Value} (hv : v.MadeFrom given)
    (h : format.refuses? v = some e) : ∃ u, given u ∧ format.refuses? u = some e := by
  induction hv with
  | given hg => exact ⟨_, hg, h⟩
  | text s =>
    rw [refuses?_scalar, refusal?_text] at h
    cases h
  | bool b => cases format <;> cases h
  | list _ ih =>
    obtain ⟨x, hx, h⟩ := exists_refused_item h
    exact ih x hx h
  | record _ ih =>
    obtain ⟨x, hx, h⟩ := exists_refused_entry h
    exact ih x hx h

end TextFormat

namespace Json

/-- The failure for a key without a text form. -/
def keyFailure (k : Scalar) : Failure := .keyWithoutText (Value.scalar k).kindName

mutual

theorem map_badKey? (v : Value) : (badKey? v).map keyFailure = TextFormat.json.refuses? v := by
  cases v with
  | scalar s => rfl
  | list xs => exact map_badKeyOfItems? xs
  | map es => exact map_badKeyOfEntries? es

theorem map_badKeyOfItems? (xs : List Value) : (badKeyOfItems? xs).map keyFailure =
    (Value.itemScalars xs).findSome? TextFormat.json.refusal? := by
  cases xs with
  | nil => rfl
  | cons x xs =>
    rw [badKeyOfItems?, Option.orElse_eq_orElse, Option.orElse_eq_or, Option.map_or,
      map_badKey? x, map_badKeyOfItems? xs, Value.itemScalars, List.findSome?_append]
    rfl

theorem map_badKeyOfEntries? (es : List (Scalar × Value)) :
    (badKeyOfEntries? es).map keyFailure =
      (Value.entryScalars es).findSome? TextFormat.json.refusal? := by
  cases es with
  | nil => rfl
  | cons e es =>
    obtain ⟨k, v⟩ := e
    rw [badKeyOfEntries?, Value.entryScalars, List.findSome?_cons, TextFormat.refusal?]
    split
    · rw [Option.orElse_eq_orElse, Option.orElse_eq_or, Option.map_or, map_badKey? v,
        map_badKeyOfEntries? es, List.findSome?_append]
      rfl
    · rfl

end

end Json

namespace Yaml

/-- What becomes of writing a value that is refused with a failure or not at all. -/
inductive Written {α : Type} : Except Failure α → Option Failure → Prop
  | ok (a : α) : Written (.ok a) none
  | error (e : Failure) : Written (.error e) (some e)

theorem Written.bind {α β : Type} {x : Except Failure α} {f : α → Except Failure β}
    {r r' : Option Failure} (hx : Written x r) (hf : ∀ a, Written (f a) r') :
    Written (x >>= f) (r.or r') := by
  cases hx with
  | ok a => exact hf a
  | error e => exact .error e

/-- A last step that cannot fail changes nothing about the outcome. -/
theorem Written.map {α β : Type} {x : Except Failure α} {r : Option Failure} (hx : Written x r)
    (f : α → β) : Written (x >>= fun a => pure (f a)) r := by
  cases hx with
  | ok a => exact .ok (f a)
  | error e => exact .error e

theorem scalarFrom_written (column indent : Nat) (isKey : Bool) (position : Position)
    (s : Scalar) :
    Written (scalarFrom column indent isKey s) (TextFormat.yaml.refusal? (position, s)) := by
  cases s with
  | time | decimal => exact .error _
  | _ => exact .ok _

/-- The refusal of an entry: that of its key, or else that of its value. -/
def entryRefusal (k : Scalar) (v : Value) : Option Failure :=
  (TextFormat.yaml.refusal? (.key, k)).or (TextFormat.yaml.refuses? v)

theorem entryWith_written (indent : Nat) (k : Scalar) {value : Nat → Except Failure (List Char)}
    {v : Value} (hv : ∀ column, Written (value column) (TextFormat.yaml.refuses? v)) :
    Written (entryWith indent k value) (entryRefusal k v) := by
  unfold entryWith
  split
  · exact (scalarFrom_written ..).bind fun _ => (hv _).map _
  · exact (scalarFrom_written ..).bind fun _ => (hv _).map _

theorem refuses?_cons_item (x : Value) (xs : List Value) :
    TextFormat.yaml.refuses? (.list (x :: xs)) =
      (TextFormat.yaml.refuses? x).or (TextFormat.yaml.refuses? (.list xs)) :=
  List.findSome?_append

theorem refuses?_cons_entry (k : Scalar) (v : Value) (es : List (Scalar × Value)) :
    TextFormat.yaml.refuses? (.map ((k, v) :: es)) =
      (entryRefusal k v).or (TextFormat.yaml.refuses? (.map es)) := by
  show (Value.entryScalars ((k, v) :: es)).findSome? TextFormat.yaml.refusal? = _
  rw [Value.entryScalars, List.findSome?_cons, entryRefusal]
  cases TextFormat.yaml.refusal? (.key, k) with
  | none => exact List.findSome?_append
  | some e => rfl

mutual

theorem blockAt_written (indent : Nat) (v : Value) :
    Written (blockAt indent v) (TextFormat.yaml.refuses? v) := by
  cases v with
  | scalar s =>
    rw [TextFormat.refuses?_scalar]
    exact scalarFrom_written ..
  | list xs =>
    cases xs with
    | nil => exact .ok _
    | cons x xs =>
      rw [refuses?_cons_item]
      exact (blockAt_written (indent + 2) x).bind fun _ => (itemsAt_written indent xs).map _
  | map es =>
    cases es with
    | nil => exact .ok _
    | cons e es =>
      rw [refuses?_cons_entry]
      exact (entryAt_written indent e.1 e.2).bind fun _ => (entriesAt_written indent es).map _

theorem itemsAt_written (indent : Nat) (xs : List Value) :
    Written (itemsAt indent xs) (TextFormat.yaml.refuses? (.list xs)) := by
  cases xs with
  | nil => exact .ok _
  | cons x xs =>
    rw [refuses?_cons_item]
    exact (blockAt_written (indent + 2) x).bind fun _ => (itemsAt_written indent xs).map _

theorem entryAt_written (indent : Nat) (k : Scalar) (v : Value) :
    Written (entryAt indent k v) (entryRefusal k v) := by
  cases v with
  | scalar s =>
    refine entryWith_written indent k fun column => ?_
    rw [TextFormat.refuses?_scalar]
    exact scalarFrom_written ..
  | list xs =>
    cases xs with
    | nil => exact entryWith_written indent k fun _ => .ok _
    | cons x xs =>
      rw [entryRefusal, refuses?_cons_item]
      unfold entryAt
      split
      · exact (scalarFrom_written ..).bind fun _ => (blockAt_written (indent + 2) x).bind fun _ =>
          (itemsAt_written indent xs).map _
      · exact (scalarFrom_written ..).bind fun _ => (blockAt_written (indent + 4) x).bind fun _ =>
          (itemsAt_written (indent + 2) xs).map _
  | map es =>
    cases es with
    | nil => exact entryWith_written indent k fun _ => .ok _
    | cons e es =>
      rw [entryRefusal, refuses?_cons_entry]
      unfold entryAt
      split
      · exact (scalarFrom_written ..).bind fun _ =>
          (entryAt_written (indent + 2) e.1 e.2).bind fun _ =>
            (entriesAt_written (indent + 2) es).map _
      · exact (scalarFrom_written ..).bind fun _ =>
          (entryAt_written (indent + 2) e.1 e.2).bind fun _ =>
            (entriesAt_written (indent + 2) es).map _

theorem entriesAt_written (indent : Nat) (es : List (Scalar × Value)) :
    Written (entriesAt indent es) (TextFormat.yaml.refuses? (.map es)) := by
  cases es with
  | nil => exact .ok _
  | cons e es =>
    rw [refuses?_cons_entry]
    exact (entryAt_written indent e.1 e.2).bind fun _ => (entriesAt_written indent es).map _

end

/-- Writing a value fails exactly when it is refused, and as it is refused. -/
theorem print_written (v : Value) : Written (print v) (TextFormat.yaml.refuses? v) := by
  cases v with
  | scalar s =>
    rw [TextFormat.refuses?_scalar]
    exact (scalarFrom_written ..).map _
  | list xs => exact (blockAt_written 0 (.list xs)).map _
  | map es => exact (blockAt_written 0 (.map es)).map _

end Yaml

namespace TextFormat

variable {format : TextFormat} {v : Value}

/-- Printing fails exactly when the value is refused, and with the failure of its refusal. -/
theorem print_error_iff {e : Failure} :
    format.print v = .error e ↔ format.refuses? v = some e := by
  cases format with
  | json =>
    show Json.print v = .error e ↔ _
    rw [← Json.map_badKey?, Json.print]
    cases Json.badKey? v with
    | none => exact ⟨nofun, nofun⟩
    | some k => exact ⟨fun h => congrArg some (Except.error.inj h), fun h => by cases h; rfl⟩
  | yaml =>
    show Yaml.print v = .error e ↔ _
    generalize hr : refuses? .yaml v = r
    have written := Yaml.print_written v
    rw [hr] at written
    generalize Yaml.print v = result at written ⊢
    cases written with
    | ok a => exact ⟨nofun, nofun⟩
    | error e' => exact ⟨fun h => by cases h; rfl, fun h => by cases h; rfl⟩

/-- A value has a text exactly when each of its scalars has a form where it stands. -/
theorem print_ok_iff :
    (∃ text, format.print v = .ok text) ↔ ∀ x ∈ v.scalars, format.refusal? x = none := by
  rw [← refuses?_eq_none_iff]
  cases hp : format.print v with
  | ok text =>
    refine iff_of_true ⟨text, rfl⟩ (Option.eq_none_iff_forall_ne_some.2 fun e h => ?_)
    rw [print_error_iff.2 h] at hp
    cases hp
  | error e =>
    rw [print_error_iff.1 hp]
    exact ⟨nofun, nofun⟩

/-- What is put together from given values is refused as one of them is. -/
theorem exists_given_of_print_error {given : Value → Prop} {e : Failure} (hv : v.MadeFrom given)
    (h : format.print v = .error e) : ∃ u, given u ∧ format.print u = .error e := by
  obtain ⟨u, hu, h⟩ := exists_refused_given hv (print_error_iff.1 h)
  exact ⟨u, hu, print_error_iff.2 h⟩

end TextFormat

end ApiCompiler
