import ApiCompiler.Proofs.Demands
import ApiCompiler.Proofs.FieldRules
import ApiCompiler.Proofs.UsedResolver

/-!
# Required fields of models

A model requires what the types that it was built from require together. Which fields these are is
decided when the fields of a class are listed, and never again: that the type of a field lets its
value be missing is forgotten as soon as the type is resolved.
-/

set_option autoImplicit false

namespace ApiCompiler

variable {w : World} {o : Overrides} {t : TypeExpr} {name : String} {fields : List ModelField}

/-- The names of the required fields, as they stand in a model. -/
theorem World.mem_requiredNames {x : String} :
    x ∈ World.requiredNames fields ↔ ∃ f ∈ fields, f.name = x ∧ f.required = true := by
  unfold requiredNames
  rw [List.mem_map]
  constructor
  · rintro ⟨f, hf, rfl⟩
    obtain ⟨hf, hrequired⟩ := List.mem_filter.1 hf
    exact ⟨f, hf, rfl, hrequired⟩
  · rintro ⟨f, hf, rfl, hrequired⟩
    exact ⟨f, List.mem_filter.2 ⟨hf, hrequired⟩, rfl⟩

namespace World

/-- A text that may be missing. -/
def noteType : TypeExpr := .union [.builtin .str, .noneType]
def noteDecl (kind id : String) (memo : List (Scalar × Value)) : Value :=
  .map [(.text "kind", .text kind), (.text "id", .text id), (.text "fields", .list [
    .map [(.text "name", .text "note"), (.text "type", .map [(.text "optional", .text "str")])],
    .map ((.text "name", .text "memo") :: memo)])]

/-- A class of each kind, with a note that may be empty and a memo that may be left out as well, and
one that takes both over. -/
def noteDecls : List Value :=
  let type : Value := .map [(.text "optional", .text "str")]
  let given := [(.text "type", type), (.text "default", .bool true)]
  [noteDecl "dataclass" "Order" given, noteDecl "pydantic" "Invoice" given,
  noteDecl "typeddict" "Label" [(.text "type", .map [(.text "notrequired", type)])],
  noteDecl "namedtuple" "Line" given, noteDecl "class" "Parcel" given,
  .map [(.text "kind", .text "dataclass"), (.text "id", .text "Rush"),
    (.text "bases", .list [.text "Order"])]]

def noteFields : List FieldDecl := [
  { name := "note", type := noteType },
  { name := "memo", type := noteType, hasDefault := true }]

def noteClass (name : String) (kind : ClassKind) : ClassDecl where
  name
  qualname := name
  kind
  above := [.builtin .object]
  fields := noteFields
  annotations := [("note", noteType), ("memo", noteType)]

def noted : World where
  decls := [
    .cls { noteClass "Order" .dataclass with
      dataFields := some [
        { name := "note", required := true, description := "", isClassVar := false },
        { name := "memo", required := false, description := "", isClassVar := false }]
      attributes := ["memo"] },
    .cls { noteClass "Invoice" .model with
      modelFields := [("note", { name := "note", type := noteType, required := true }),
        ("memo", { name := "memo", type := noteType, required := false })] },
    .cls { noteClass "Label" (.typedDict true) with
      above := [.builtin .dict, .builtin .object]
      fields := [
        { name := "note", type := noteType },
        { name := "memo", type := .notRequired noteType }]
      annotations := [("note", noteType), ("memo", .notRequired noteType)]
      requiredKeys := ["note"] },
    .cls { noteClass "Line" .namedTuple with
      above := [.builtin .tuple, .builtin .object]
      attributes := ["note", "memo"] },
    .cls { noteClass "Parcel" .plain with
      attributes := ["memo"] },
    .cls {
      name := "Rush"
      qualname := "Rush"
      kind := .dataclass
      bases := [.declared 0]
      above := [.declared 0, .builtin .object]
      dataFields := some [
        { name := "note", required := true, description := "", isClassVar := false },
        { name := "memo", required := false, description := "", isClassVar := false }] }]
  names := [("Order", .declared 0), ("Invoice", .declared 1), ("Label", .declared 2),
    ("Line", .declared 3), ("Parcel", .declared 4), ("Rush", .declared 5)]

def orderFields : List ModelField := [
  { name := "note", type := noteType, required := true },
  { name := "memo", type := noteType, required := false }]

/-- An order, and the class that takes its fields over. -/
theorem noted_order {i : Nat} (hi : i = 0 ∨ i = 5) :
    noted.HasFields [] (.declared i) orderFields := by
  rcases hi with rfl | rfl <;> exact ⟨rfl, rfl⟩

theorem noted_met {i : Nat} (hi : i = 0 ∨ i = 5) {t : TypeExpr}
    (h : noted.Met [] [.declared i] t) : t = .declared i ∨ t = noteType ∨ t = .builtin .str := by
  obtain ⟨root, hroot, h⟩ := h
  induction h with
  | refl => exact .inl (List.mem_singleton.1 hroot)
  | tail _ hd ih =>
    cases hd with
    | part hp =>
      rcases ih with rfl | rfl | rfl
      · rcases hi with rfl | rfl <;> cases hp
      · exact .inr (.inr (Option.some.inj hp).symm)
      · cases hp
    | field hfields hf =>
      rcases ih with rfl | rfl | rfl
      · rw [hfields.unique (noted_order hi) rfl] at hf
        rcases List.mem_cons.1 hf with rfl | hf
        · exact .inr (.inl rfl)
        · rw [List.mem_singleton.1 hf]
          exact .inr (.inl rfl)
      · cases hfields.shape
      · cases hfields.shape

theorem noted_alone {i : Nat} (hi : i = 0 ∨ i = 5) {name : String} (u : TypeExpr)
    (fields' : List ModelField) (hu : noted.Names [] (noted.Met [] [.declared i]) name u fields') :
    u.bare = .declared i := by
  rcases noted_met hi hu.met with rfl | rfl | rfl
  · rfl
  · cases hu.object.shape
  · cases hu.object.shape

def orderSpec : ClassSpec where
  id := "Order"
  name := "Order"
  kind := .dataclass
  fields := noteFields

def rushSpec : ClassSpec where
  id := "Rush"
  name := "Rush"
  kind := .dataclass
  bases := [.declared 0]

/-- The declarations up to that of an order. -/
def orderWorld : World where
  decls := noted.decls.take 1
  names := noted.names.take 1

/-- A rush demands a value for a field when an order does: when it has no default. -/
theorem rush_rule {fd : FieldDecl} (mem : fd ∈ noteFields) :
    noted.DataRule 5 fd.name (!fd.hasDefault) := by
  have order : orderWorld.DeclaredAs {} orderSpec 0 := ⟨[], rfl⟩
  have rush : noted.DeclaredAs orderWorld rushSpec 5 := ⟨[], rfl⟩
  have own := DataRule.own order rfl mem
  rcases List.mem_cons.1 mem with rfl | mem
  · exact .takenOver rush rfl nofun (t := .declared 0) rfl rfl own
  · obtain rfl := List.mem_singleton.1 mem
    exact .takenOver rush rfl nofun (t := .declared 0) rfl rfl own

/-- The model of a class requires a note, which may be missing. -/
def RequiresNote (w : World) (i : Nat) : Prop :=
  ∃ fields f name q m, w.HasFields [] (.declared i) fields ∧ f ∈ fields ∧
    f.name = "note" ∧ f.type = .union [.builtin .str, .noneType] ∧
    Run.resolve w (.declared i) {} = .ok (.refTo name) q ∧
    q.registry.models.get? name = some m ∧ m.required = ["note"]

end World

end ApiCompiler
