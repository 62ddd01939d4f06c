import ApiCompiler.Proofs.References
import ApiCompiler.Proofs.Rendering

/-!
# References of a rendered document

A rendered document is read here without the document that it comes from: which texts its schemas
refer to, at every place where a schema can stand. These texts are the references among the schemas
that are rendered, neither more nor fewer, and a name that one of them refers to is defined in the
rendered document or reported as unresolved. Values that are only passed on, such as defaults and
allowed values, are not read as schemas.
-/

set_option autoImplicit false

namespace ApiCompiler

/-! ### Reading a rendered document -/

namespace Value

/-- A map with a value at a key. -/
def At (key : String) (v u : Value) : Prop := ∃ es, v = .map es ∧ (.text key, u) ∈ es

/-- A rendered schema refers to a text, itself or in one of the schemas in it. -/
inductive RefersTo (text : String) : Value → Prop
  | here {v : Value} (h : v.At "$ref" (.text text)) : RefersTo text v
  | items {v u : Value} (h : v.At "items" u) (hu : RefersTo text u) : RefersTo text v
  | values {v u : Value} (h : v.At "additionalProperties" u) (hu : RefersTo text u) :
      RefersTo text v
  | property {v ps u : Value} {name : String} (h : v.At "properties" ps) (hp : ps.At name u)
      (hu : RefersTo text u) : RefersTo text v

/-- A rendered parameter refers to a text: like a schema itself, or by the schema of a body. -/
def ParameterRefersTo (text : String) (v : Value) : Prop :=
  v.RefersTo text ∨ ∃ s, v.At "schema" s ∧ s.RefersTo text

/-- A rendered response refers to a text, by its schema or by a header. -/
def ResponseRefersTo (text : String) (v : Value) : Prop :=
  (∃ s, v.At "schema" s ∧ s.RefersTo text) ∨
    ∃ hs, v.At "headers" hs ∧ ∃ name s, hs.At name s ∧ s.RefersTo text

/-- A rendered operation refers to a text, by a parameter or by a response. -/
def OperationRefersTo (text : String) (v : Value) : Prop :=
  (∃ xs, v.At "parameters" (.list xs) ∧ ∃ x ∈ xs, x.ParameterRefersTo text) ∨
    ∃ rs, v.At "responses" rs ∧ ∃ code r, rs.At code r ∧ r.ResponseRefersTo text

/-- A rendered document refers to a text, by a definition or by an operation. -/
def DocumentRefersTo (text : String) (v : Value) : Prop :=
  (∃ ds, v.At "definitions" ds ∧ ∃ name s, ds.At name s ∧ s.RefersTo text) ∨
    ∃ ps, v.At "paths" ps ∧ ∃ path verbs, ps.At path verbs ∧
      ∃ verb op, verbs.At verb op ∧ op.OperationRefersTo text

/-- A rendered document has a definition of a name. -/
def Defines (v : Value) (name : String) : Prop := ∃ ds s, v.At "definitions" ds ∧ ds.At name s

variable {t : Table Value} {key : String} {u v : Value} {text : String}

theorem at_record : (record t).At key u ↔ (key, u) ∈ t := by
  constructor
  · rintro ⟨es, hes, h⟩
    obtain rfl := Value.map.inj hes
    obtain ⟨e, he, heq⟩ := List.mem_map.1 h
    obtain ⟨hkey, rfl⟩ := Prod.mk.inj heq
    obtain rfl := Scalar.text.inj hkey
    exact he
  · exact fun h => ⟨_, rfl, List.mem_map.2 ⟨(key, u), h, rfl⟩⟩

theorem refersTo_iff :
    v.RefersTo text ↔ v.At "$ref" (.text text) ∨ (∃ u, v.At "items" u ∧ u.RefersTo text) ∨
      (∃ u, v.At "additionalProperties" u ∧ u.RefersTo text) ∨
      ∃ ps name u, v.At "properties" ps ∧ ps.At name u ∧ u.RefersTo text := by
  constructor
  · intro h
    cases h with
    | here h => exact .inl h
    | items h hu => exact .inr (.inl ⟨_, h, hu⟩)
    | values h hu => exact .inr (.inr (.inl ⟨_, h, hu⟩))
    | property h hp hu => exact .inr (.inr (.inr ⟨_, _, _, h, hp, hu⟩))
  · rintro (h | ⟨u, h, hu⟩ | ⟨u, h, hu⟩ | ⟨ps, name, u, h, hp, hu⟩)
    · exact .here h
    · exact .items h hu
    · exact .values h hu
    · exact .property h hp hu

end Value

/-! ### Rendered names -/

namespace Schema

mutual

/-- The schema with all schemas in it, whether they are rendered or not. -/
def parts : Schema → List Schema
  | s@⟨_, _, items, values, _, properties, _, _, _, _, _, _⟩ =>
    s :: (optionParts items ++ optionParts values ++ tableParts properties)

/-- An optional schema with all schemas in it. -/
def optionParts : Option Schema → List Schema
  | none => []
  | some s => parts s

/-- The values of a table with all schemas in them. -/
def tableParts : List (String × Schema) → List Schema
  | [] => []
  | (_, s) :: rest => parts s ++ tableParts rest

end

mutual

/-- The names that the rendered form of a schema refers to; a reference without a name has the empty
one. Only what belongs to the kind is rendered. -/
def shownNames : Schema → List String
  | ⟨kind, _, items, values, ref, properties, _, _, _, _, _, _⟩ =>
    match kind with
    | .ref => [ref.getD ""]
    | .array => optionShownNames items
    | .map => optionShownNames values
    | .object => tableShownNames properties
    | _ => []

/-- The names that the rendered form of an optional schema refers to. -/
def optionShownNames : Option Schema → List String
  | none => []
  | some s => shownNames s

/-- The names that the rendered values of a table refer to. -/
def tableShownNames : List (String × Schema) → List String
  | [] => []
  | (_, s) :: rest => shownNames s ++ tableShownNames rest

end

theorem shownNames_of_array {s : Schema} (h : s.kind = .array) :
    s.shownNames = optionShownNames s.items := by
  obtain ⟨kind, format, items, values, ref, properties, required, enum, description, default,
    access, reference⟩ := s
  cases h
  rfl

end Schema

/-- The names that the rendered form of a parameter refers to. -/
def Parameter.shownNames (p : Parameter) : List String :=
  if p.location = .body then p.shape.shownNames
  else if p.shape.kind = .array then Schema.optionShownNames p.shape.items
  else []

/-- The names that the rendered form of a response refers to. -/
def Response.shownNames (r : Response) : List String :=
  Schema.optionShownNames r.shape ++ Schema.tableShownNames r.headers

/-- The names that the rendered form of an operation refers to. -/
def Operation.shownNames (op : Operation) : List String :=
  op.parameters.flatMap Parameter.shownNames ++ op.responses.flatMap fun e => e.2.shownNames

/-- The names that the rendered form of a document refers to. -/
def Document.shownNames (d : Document) : List String :=
  Schema.tableShownNames d.definitions ++ d.operations.flatMap fun o => o.2.2.shownNames

namespace Swagger

open Schema (shownNames optionShownNames tableShownNames)

variable {s : Schema} {v : Value} {key text : String}

/-- The keys of a rendered schema or parameter below which there is a reference or a schema. -/
def schemaKeys : List String := ["$ref", "items", "additionalProperties", "properties", "schema"]

/-- The fields that every kind of schema may have hold no schemas. -/
theorem not_mem_annotationEntries {enum : List Value} {description access : String}
    {default : Value} (hkey : key ∈ schemaKeys) :
    (key, v) ∉ annotationEntries enum description default access := by
  intro h
  have : key = "enum" ∨ key = "description" ∨ key = "default" ∨ key = "x-access" := by
    simp only [annotationEntries, textEntry, valueEntry, List.mem_append] at h
    grind
  rcases this with rfl | rfl | rfl | rfl <;> simp [schemaKeys] at hkey

theorem exists_mem_mapValues {α β : Type} {f : α → β} {t : Table α} {P : β → Prop} :
    (∃ k b, (k, b) ∈ t.mapValues f ∧ P b) ↔ ∃ e ∈ t, P (f e.2) := by
  simp [Table.mapValues]

theorem tableEntries_eq (ps : Table Schema) : tableEntries ps = ps.mapValues schema := by
  induction ps with
  | nil => rfl
  | cons e ps ih =>
    obtain ⟨name, s⟩ := e
    rw [tableEntries, ih]
    rfl

/-- What the rendered form of a schema refers to, by its kind. -/
theorem refersTo_schema :
    (schema s).RefersTo text ↔
      match s.kind with
      | .ref => text = definitionsPath ++ s.ref.getD ""
      | .array => (optionValue s.items).RefersTo text
      | .map => (optionValue s.values).RefersTo text
      | .object => ∃ e ∈ s.properties, (schema e.2).RefersTo text
      | _ => False := by
  obtain ⟨kind, format, items, values, ref, properties, required, enum, description, default,
    access, reference⟩ := s
  have plain : ∀ key ∈ schemaKeys, ∀ v,
      (key, v) ∉ annotationEntries enum description default access :=
    fun _ hkey _ => not_mem_annotationEntries hkey
  simp only [schemaKeys, List.forall_mem_cons] at plain
  obtain ⟨noRef, noItems, noValues, noProperties, -⟩ := plain
  rw [schema, Value.refersTo_iff]
  simp only [Value.at_record]
  cases kind with
  | object =>
    cases properties with
    | nil => simp [schemaEntries, textsEntry, noRef, noItems, noValues, noProperties]
    | cons e es =>
      simp [schemaEntries, textsEntry, noRef, noItems, noValues, noProperties, tableEntries_eq,
        Value.at_record, exists_mem_mapValues]
  | _ => simp [schemaEntries, textEntry, noRef, noItems, noValues, noProperties]

mutual

/-- The rendered form of a schema refers to the names that are shown, behind the path of the
definitions. -/
theorem refersTo_schema_iff (s : Schema) :
    (schema s).RefersTo text ↔ ∃ n ∈ shownNames s, text = definitionsPath ++ n := by
  rw [refersTo_schema]
  obtain ⟨kind, format, items, values, ref, properties, required, enum, description, default,
    access, reference⟩ := s
  cases kind with
  | ref => simp [shownNames]
  | array => exact refersTo_optionValue_iff items
  | map => exact refersTo_optionValue_iff values
  | object => exact refersTo_table_iff properties
  | _ => simp [shownNames]

theorem refersTo_optionValue_iff (s : Option Schema) :
    (optionValue s).RefersTo text ↔ ∃ n ∈ optionShownNames s, text = definitionsPath ++ n := by
  cases s with
  | none =>
    rw [Value.refersTo_iff]
    simp [optionValue, optionShownNames, Value.At]
  | some s => exact refersTo_schema_iff s

theorem refersTo_table_iff (ps : List (String × Schema)) :
    (∃ e ∈ ps, (schema e.2).RefersTo text) ↔
      ∃ n ∈ tableShownNames ps, text = definitionsPath ++ n := by
  cases ps with
  | nil => simp [tableShownNames]
  | cons e ps =>
    obtain ⟨name, s⟩ := e
    rw [List.exists_mem_cons_iff, refersTo_schema_iff s, refersTo_table_iff ps, tableShownNames]
    simp [or_and_right, exists_or]

end

/-! ### Parameters, responses and operations -/

theorem get?_schemaEntries_items (s : Schema) :
    (schemaEntries s).get? "items" =
      if s.kind = .array then some (optionValue s.items) else none := by
  obtain ⟨kind, format, items, values, ref, properties, required, enum, description, default,
    access, reference⟩ := s
  split
  · rename_i h
    cases h
    rfl
  · rename_i h
    refine Option.eq_none_iff_forall_not_mem.2 fun v hv => ?_
    have hmem := Table.mem_of_get? hv
    have noItems : ("items", v) ∉ annotationEntries enum description default access :=
      not_mem_annotationEntries (by decide)
    cases kind with
    | array => exact h rfl
    | object =>
      cases properties <;> simp [schemaEntries, textsEntry, noItems] at hmem
    | _ => simp [schemaEntries, textEntry, noItems] at hmem

theorem mem_insert_of_ne {t : Table Value} {k : String} {w : Value} (h : key ≠ k) :
    (key, v) ∈ t.insert k w ↔ (key, v) ∈ t := by
  induction t with
  | nil => simp [Table.insert, h]
  | cons e t ih =>
    obtain ⟨k', u⟩ := e
    rw [Table.insert]
    split
    · rename_i hk
      simp [hk, h]
    · simp [ih]

/-- A parameter outside of the body shows the schema of its items, and no other. -/
theorem at_parameter {p : Parameter} (hkey : key ∈ schemaKeys) :
    (Value.record (parameterEntries p)).At key v ↔
      if p.location = .body then key = "schema" ∧ v = schema p.shape
      else key = "items" ∧ p.shape.kind = .array ∧ v = optionValue p.shape.items := by
  have hne := (by decide : ∀ k ∈ schemaKeys, k ≠ "type" ∧ k ≠ "enum" ∧ k ≠ "default" ∧
    k ≠ "pattern" ∧ k ≠ "name" ∧ k ≠ "in" ∧ k ≠ "required" ∧ k ≠ "description" ∧
    k ≠ "x-access") key hkey
  rw [Value.at_record, parameterEntries]
  split
  · simp [textEntry, hne]
  · have allowed (out : Table Value) :
        (key, v) ∈ (if p.enum = [] then out else Table.insert out "enum" (Value.texts p.enum)) ↔
          (key, v) ∈ out := by
      split <;> simp [mem_insert_of_ne, hne]
    have inline : key ∈ inlineKeys ∧ (schemaEntries p.shape).get? key = some v ↔
        key = "items" ∧ p.shape.kind = .array ∧ v = optionValue p.shape.items := by
      constructor
      · rintro ⟨hmem, hget⟩
        obtain rfl : key = "items" :=
          (by decide : ∀ k ∈ schemaKeys, k ∈ inlineKeys → k = "items") key hkey hmem
        rw [get?_schemaEntries_items] at hget
        split at hget
        · rename_i harray
          exact ⟨rfl, harray, (Option.some.inj hget).symm⟩
        · cases hget
      · rintro ⟨rfl, harray, rfl⟩
        exact ⟨by decide, by rw [get?_schemaEntries_items, if_pos harray]⟩
    have tail (out : Table Value) : (key, v) ∈ out ++ valueEntry "default" p.default ++
        textEntry "pattern" (p.pattern.getD "") ++ textEntry "x-access" p.access ↔
          (key, v) ∈ out := by
      simp [textEntry, valueEntry, hne]
    refine (tail _).trans ((allowed _).trans ?_)
    split <;> simp [mem_insert_of_ne, inline, textEntry, hne]

/-- What a rendered parameter refers to. -/
theorem refersTo_parameter {p : Parameter} :
    (Value.record (parameterEntries p)).ParameterRefersTo text ↔
      ∃ n ∈ p.shownNames, text = definitionsPath ++ n := by
  have plain : (Value.record (parameterEntries p)).RefersTo text ↔
      p.location ≠ .body ∧ p.shape.kind = .array ∧ (optionValue p.shape.items).RefersTo text := by
    rw [Value.refersTo_iff]
    simp only [at_parameter (by decide : "$ref" ∈ schemaKeys),
      at_parameter (by decide : "items" ∈ schemaKeys),
      at_parameter (by decide : "additionalProperties" ∈ schemaKeys),
      at_parameter (by decide : "properties" ∈ schemaKeys)]
    split <;> rename_i hbody <;> simp [hbody]
  have body {s : Value} : (Value.record (parameterEntries p)).At "schema" s ↔
      p.location = .body ∧ s = schema p.shape := by
    rw [at_parameter (by decide : "schema" ∈ schemaKeys)]
    split <;> rename_i hbody <;> simp [hbody]
  simp only [Value.ParameterRefersTo, plain, body, Parameter.shownNames]
  split
  · rename_i hbody
    simp [hbody, refersTo_schema_iff]
  · rename_i hbody
    split
    · rename_i harray
      simp [hbody, harray, refersTo_optionValue_iff]
    · rename_i harray
      simp [hbody, harray]

theorem exists_at_mapValues {α : Type} {f : α → Value} {t : Table α} {P : Value → Prop} :
    (∃ k u, (Value.record (t.mapValues f)).At k u ∧ P u) ↔ ∃ e ∈ t, P (f e.2) := by
  simp only [Value.at_record]
  exact exists_mem_mapValues

theorem exists_mem_sorted {α : Type} {t : Table α} {P : String × α → Prop} :
    (∃ e ∈ t.sorted, P e) ↔ ∃ e ∈ t, P e := by
  simp only [Table.mem_sorted]

theorem exists_mem_append {α : Type} {xs ys : List α} {P : α → Prop} :
    (∃ x ∈ xs ++ ys, P x) ↔ (∃ x ∈ xs, P x) ∨ ∃ y ∈ ys, P y := by
  simp only [List.mem_append, or_and_right, exists_or]

theorem exists_mem_flatMap {α β : Type} {f : α → List β} {xs : List α} {P : β → Prop} :
    (∃ y ∈ xs.flatMap f, P y) ↔ ∃ x ∈ xs, ∃ y ∈ f x, P y := by
  simp only [List.mem_flatMap]
  constructor
  · rintro ⟨y, ⟨x, hx, hy⟩, h⟩
    exact ⟨x, hx, y, hy, h⟩
  · rintro ⟨x, hx, y, hy, h⟩
    exact ⟨y, ⟨x, hx, hy⟩, h⟩

/-- What a rendered response refers to. -/
theorem refersTo_response {r : Response} :
    (Value.record (responseEntries r)).ResponseRefersTo text ↔
      ∃ n ∈ r.shownNames, text = definitionsPath ++ n := by
  have schema {u : Value} : (Value.record (responseEntries r)).At "schema" u ↔
      ∃ s, r.shape = some s ∧ u = schema s := by
    rw [Value.at_record, responseEntries]
    cases r.shape <;> simp
  have headers {u : Value} : (Value.record (responseEntries r)).At "headers" u ↔
      r.headers ≠ [] ∧ u = .record (r.headers.mapValues Swagger.schema) := by
    rw [Value.at_record, responseEntries, tableEntries_eq]
    cases r.shape <;> cases r.headers <;> simp
  have byShape : (∃ u, (∃ s, r.shape = some s ∧ u = Swagger.schema s) ∧ u.RefersTo text) ↔
      ∃ n ∈ optionShownNames r.shape, text = definitionsPath ++ n := by
    cases r.shape with
    | none => simp [optionShownNames]
    | some s => simp [optionShownNames, refersTo_schema_iff]
  have byHeaders : (∃ u, (r.headers ≠ [] ∧ u = Value.record (r.headers.mapValues Swagger.schema)) ∧
      ∃ name s, u.At name s ∧ s.RefersTo text) ↔
      ∃ n ∈ tableShownNames r.headers, text = definitionsPath ++ n := by
    rw [← refersTo_table_iff]
    constructor
    · rintro ⟨_, ⟨-, rfl⟩, h⟩
      exact exists_at_mapValues.1 h
    · rintro ⟨e, he, h⟩
      exact ⟨_, ⟨List.ne_nil_of_mem he, rfl⟩, exists_at_mapValues.2 ⟨e, he, h⟩⟩
  simp only [Value.ResponseRefersTo, schema, headers, byShape, byHeaders, Response.shownNames,
    exists_mem_append]

/-- What a rendered operation refers to. -/
theorem refersTo_operation {op : Operation} :
    (operation op).OperationRefersTo text ↔ ∃ n ∈ op.shownNames, text = definitionsPath ++ n := by
  have parameters {u : Value} : (operation op).At "parameters" u ↔
      u = .list (op.parameters.map fun p => .record (parameterEntries p)) := by
    rw [operation, Value.at_record, operationEntries]
    simp [textEntry, textsEntry]
  have responses {u : Value} : (operation op).At "responses" u ↔
      u = .record (op.responses.mapValues fun r => .record (responseEntries r)) := by
    rw [operation, Value.at_record, operationEntries]
    simp [textEntry, textsEntry]
  simp only [Value.OperationRefersTo, parameters, responses, Operation.shownNames, Value.list.injEq,
    exists_eq_left, exists_at_mapValues, refersTo_response, exists_mem_append, exists_mem_flatMap]
  refine or_congr_left ?_
  simp [refersTo_parameter]

theorem at_definitions {d : Document} {settings : Settings} {u : Value} :
    (render d settings).At "definitions" u ↔ u = definitions d := by
  rw [render, Value.at_record]
  simp [textEntry, textsEntry]

/-- What a rendered document refers to. -/
theorem refersTo_document {d : Document} {settings : Settings} :
    (render d settings).DocumentRefersTo text ↔
      ∃ n ∈ d.shownNames, text = definitionsPath ++ n := by
  have paths {u : Value} : (render d settings).At "paths" u ↔ u = paths d := by
    rw [render, Value.at_record]
    simp [textEntry, textsEntry]
  simp only [Value.DocumentRefersTo, at_definitions, paths, exists_eq_left, Swagger.definitions,
    Swagger.paths, exists_at_mapValues, exists_mem_sorted, refersTo_operation, refersTo_table_iff,
    Document.shownNames, Document.operations, exists_mem_append, exists_mem_flatMap]
  refine or_congr_right ?_
  simp

/-- A rendered document has the definitions of the document. -/
theorem defines_render {d : Document} {settings : Settings} {name : String} :
    (render d settings).Defines name ↔ d.definitions.has name := by
  have defined : (render d settings).Defines name ↔ ∃ s, (definitions d).At name s := by
    constructor
    · rintro ⟨ds, s, hds, hs⟩
      exact ⟨s, at_definitions.1 hds ▸ hs⟩
    · rintro ⟨s, hs⟩
      exact ⟨_, s, at_definitions.2 rfl, hs⟩
  rw [defined, Table.has_iff_mem_keys]
  simp [definitions, Value.at_record, Table.mapValues, Table.sorted, Table.keys]

end Swagger

/-! ### Completeness of the check -/

namespace Schema

/-- A schema that has a name if it is a reference. -/
def Named (s : Schema) : Prop := s.kind = .ref → s.ref.getD "" ≠ ""

instance (s : Schema) : Decidable s.Named :=
  inferInstanceAs (Decidable (s.kind = .ref → s.ref.getD "" ≠ ""))

mutual

/-- What is shown of a schema whose references all have names is among its references. -/
theorem mem_references_of_shownNames {n : String} (s : Schema)
    (h : ∀ s' ∈ s.parts, s'.Named) (hn : n ∈ s.shownNames) :
    n ∈ s.references := by
  obtain ⟨kind, format, items, values, ref, properties, required, enum, description, default,
    access, reference⟩ := s
  rw [parts, List.forall_mem_cons, List.forall_mem_append, List.forall_mem_append] at h
  obtain ⟨hself, ⟨hitems, hvalues⟩, hproperties⟩ := h
  rw [mem_references]
  cases kind with
  | ref =>
    obtain rfl := List.mem_singleton.1 hn
    cases ref with
    | none => exact absurd rfl (hself rfl)
    | some m => exact .inl ⟨rfl, rfl, hself rfl⟩
  | array =>
    exact .inr (.inl (mem_optionReferences_of_shownNames items hitems hn))
  | map =>
    exact .inr (.inr (.inl (mem_optionReferences_of_shownNames values hvalues hn)))
  | object =>
    exact .inr (.inr (.inr (mem_tableReferences_of_shownNames properties hproperties hn)))
  | _ => cases hn

theorem mem_optionReferences_of_shownNames {n : String} (s : Option Schema)
    (h : ∀ s' ∈ optionParts s, s'.Named)
    (hn : n ∈ optionShownNames s) : n ∈ optionReferences s := by
  cases s with
  | none => cases hn
  | some s => exact mem_references_of_shownNames s h hn

theorem mem_tableReferences_of_shownNames {n : String} (ps : List (String × Schema))
    (h : ∀ s' ∈ tableParts ps, s'.Named)
    (hn : n ∈ tableShownNames ps) : n ∈ tableReferences ps := by
  cases ps with
  | nil => cases hn
  | cons e ps =>
    obtain ⟨name, s⟩ := e
    rw [tableParts, List.forall_mem_append] at h
    rw [tableShownNames, List.mem_append] at hn
    rw [tableReferences, List.mem_append]
    exact hn.imp (mem_references_of_shownNames s h.1) (mem_tableReferences_of_shownNames ps h.2)

end

end Schema

/-- A parameter outside of the body shows less than its schema refers to. -/
theorem Parameter.mem_references_of_shownNames {n : String} (p : Parameter)
    (h : ∀ s ∈ p.shape.parts, s.Named) (hn : n ∈ p.shownNames) :
    n ∈ p.shape.references := by
  refine Schema.mem_references_of_shownNames p.shape h ?_
  rw [shownNames] at hn
  split at hn
  · exact hn
  · split at hn
    · rename_i harray
      rw [Schema.shownNames_of_array harray]
      exact hn
    · cases hn

namespace Document

variable {d : Document} {n : String}

/-- All schemas of an operation. -/
def operationParts (op : Operation) : List Schema :=
  op.parameters.flatMap (fun p => p.shape.parts) ++
    op.responses.flatMap fun e =>
      Schema.optionParts e.2.shape ++ Schema.tableParts e.2.headers

/-- All schemas of a document. -/
def parts (d : Document) : List Schema :=
  Schema.tableParts d.definitions ++ d.operations.flatMap fun o => operationParts o.2.2

/-- All references of a document have names. -/
def NamesReferences (d : Document) : Prop := ∀ s ∈ d.parts, s.Named

instance (d : Document) : Decidable d.NamesReferences :=
  inferInstanceAs (Decidable (∀ s ∈ d.parts, s.Named))

theorem mem_operationReferences_of_shownNames {op : Operation}
    (h : ∀ s ∈ operationParts op, s.Named) (hn : n ∈ op.shownNames) :
    n ∈ operationReferences op := by
  rw [operationParts, List.forall_mem_append] at h
  obtain ⟨hparameters, hresponses⟩ := h
  rw [mem_operationReferences]
  rcases List.mem_append.1 hn with hn | hn
  · obtain ⟨p, hp, hn⟩ := List.mem_flatMap.1 hn
    exact .inl ⟨p, hp, p.mem_references_of_shownNames
      (fun s hs => hparameters s (List.mem_flatMap.2 ⟨p, hp, hs⟩)) hn⟩
  · obtain ⟨e, he, hn⟩ := List.mem_flatMap.1 hn
    have hparts : ∀ s ∈ Schema.optionParts e.2.shape ++ Schema.tableParts e.2.headers, s.Named :=
      fun s hs => hresponses s (List.mem_flatMap.2 ⟨e, he, hs⟩)
    rw [List.forall_mem_append] at hparts
    exact .inr ⟨e, he, (List.mem_append.1 hn).imp
      (Schema.mem_optionReferences_of_shownNames _ hparts.1)
      (Schema.mem_tableReferences_of_shownNames _ hparts.2)⟩

/-- Names that are shown are references of the document. -/
theorem NamesReferences.mem_references (h : d.NamesReferences) (hn : n ∈ d.shownNames) :
    n ∈ d.references := by
  rw [NamesReferences, parts, List.forall_mem_append] at h
  obtain ⟨hdefinitions, hoperations⟩ := h
  rcases List.mem_append.1 hn with hn | hn
  · exact List.mem_append_left _ (Schema.mem_tableReferences_of_shownNames _ hdefinitions hn)
  · obtain ⟨o, ho, hn⟩ := List.mem_flatMap.1 hn
    refine List.mem_append_right _ (List.mem_flatMap.2 ⟨o, ho, ?_⟩)
    exact mem_operationReferences_of_shownNames
      (fun s hs => hoperations s (List.mem_flatMap.2 ⟨o, ho, hs⟩)) hn

theorem mem_unresolvedReferences :
    n ∈ d.unresolvedReferences ↔ n ∈ d.references ∧ ¬ d.definitions.has n := by
  simp [unresolvedReferences, List.mem_mergeSort, mem_distinctNames]

end Document

namespace Swagger

/-- A rendered document refers to names that it defines or that are reported as unresolved. -/
theorem refersTo_render (d : Document) (settings : Settings) (h : d.NamesReferences) :
    ∀ text, (render d settings).DocumentRefersTo text → ∃ n, text = "#/definitions/" ++ n ∧
      ((render d settings).Defines n ∨ n ∈ d.unresolvedReferences) := by
  intro text href
  obtain ⟨n, hn, rfl⟩ := refersTo_document.1 href
  refine ⟨n, rfl, ?_⟩
  rw [defines_render, Document.mem_unresolvedReferences]
  by_cases hdef : d.definitions.has n
  · exact .inl hdef
  · exact .inr ⟨h.mem_references hn, hdef⟩

/-- A document with references in its definitions, in a body, below a query parameter, in a response
and in a header, some of them to nothing. -/
def loans : Document where
  paths := [("/loans", [("post", {
    operationId := "lend"
    parameters := [
      { name := "body", location := .body, shape := .refTo "Loan" },
      { name := "labels", location := .query, shape := .arrayOf (.refTo "Label") },
      { name := "desk", location := .query, shape := .refTo "Desk" }]
    responses := [("200", {
      shape := some (.mapOf (.refTo "Receipt"))
      headers := [("Location", .refTo "Place")] })] })])]
  definitions := [
    ("Loan", { kind := .object, properties := [("book", .refTo "Book"), ("next", .refTo "Loan")] }),
    ("Place", { kind := .string })]

theorem refersTo_render_loans :
    loans.NamesReferences ∧
      loans.shownNames = ["Book", "Loan", "Loan", "Label", "Receipt", "Place"] ∧
      (render loans {}).DocumentRefersTo "#/definitions/Label" ∧
      ∃ n, "#/definitions/Label" = "#/definitions/" ++ n ∧
        ((render loans {}).Defines n ∨ n ∈ loans.unresolvedReferences) := by
  have named : loans.NamesReferences := by decide
  have refers : (render loans {}).DocumentRefersTo "#/definitions/Label" :=
    refersTo_document.2 ⟨"Label", by decide, by decide⟩
  exact ⟨named, by decide, refers, refersTo_render loans {} named _ refers⟩

end Swagger

end ApiCompiler
