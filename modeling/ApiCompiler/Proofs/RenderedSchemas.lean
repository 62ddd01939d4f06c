import ApiCompiler.Proofs.Comparisons
import ApiCompiler.Proofs.RenderedReferences

/-!
# What a rendered schema tells

A schema that uses only the fields of its kind can be read off its rendered form, but for the
declared type that a named model comes from. Maps and objects are rendered with one type, and what
is empty is left out; so `Swagger.parts` lists the entries of a rendered schema under fixed keys,
the ones left out included, and rendered schemas agree when they agree key by key.
-/

set_option autoImplicit false

namespace ApiCompiler

/-! ### Entries under fixed keys -/

namespace Swagger

variable {eq : Scalar → Scalar → Bool}

/-- A table of entries that may be left out. -/
def shown (parts : List (String × Option Value)) : Table Value :=
  parts.filterMap fun (key, v) => v.map fun v => (key, v)

theorem shown_cons (key : String) (v : Option Value) (parts : List (String × Option Value)) :
    shown ((key, v) :: parts) = (v.map fun v => (key, v)).toList ++ shown parts := by
  cases v <;> rfl

theorem keys_shown_sublist (parts : List (String × Option Value)) :
    (shown parts).keys.Sublist (parts.map Prod.fst) := by
  induction parts with
  | nil => exact .slnil
  | cons part parts ih =>
    obtain ⟨key, v⟩ := part
    cases v with
    | none => exact ih.cons key
    | some v => exact ih.cons_cons _

theorem distinct_shown {parts : List (String × Option Value)} (h : (parts.map Prod.fst).Nodup) :
    (shown parts).Distinct :=
  h.sublist (keys_shown_sublist parts)

theorem get?_shown_of_not_mem {key : String} {parts : List (String × Option Value)}
    (new : key ∉ parts.map Prod.fst) : (shown parts).get? key = none := by
  rw [← Option.not_isSome_iff_eq_none]
  exact fun h => new ((keys_shown_sublist parts).subset (Table.has_iff_mem_keys.1 h))

theorem get?_shown_cons {key : String} {v : Option Value} {parts : List (String × Option Value)}
    (new : key ∉ parts.map Prod.fst) (key' : String) :
    (shown ((key, v) :: parts)).get? key' = if key = key' then v else (shown parts).get? key' := by
  rw [shown_cons]
  cases v with
  | none =>
    split
    · rename_i same
      exact same ▸ get?_shown_of_not_mem new
    · rfl
  | some v => exact Table.get?_cons ..

/-- Entries under the same fixed keys agree when they agree one by one. -/
theorem agrees_shown_iff (h : Scalar.Comparison eq) {parts parts' : List (String × Option Value)}
    (distinct : (parts.map Prod.fst).Nodup)
    (keys : parts.map Prod.fst = parts'.map Prod.fst) :
    (Value.record (shown parts)).agrees eq (.record (shown parts')) = true ↔
      List.Forall₂ (fun p p' => Value.agreesAt eq p.2 p'.2 = true) parts parts' := by
  rw [Value.agrees_record_iff_get? h (distinct_shown distinct) (distinct_shown (keys ▸ distinct))]
  induction parts generalizing parts' with
  | nil =>
    cases parts' with
    | nil => exact ⟨fun _ => .nil, fun _ _ => rfl⟩
    | cons => cases keys
  | cons part parts ih =>
    cases parts' with
    | nil => cases keys
    | cons part' parts' =>
      obtain ⟨key, v⟩ := part
      obtain ⟨key', v'⟩ := part'
      obtain ⟨first, others⟩ := List.cons.inj keys
      obtain rfl : key = key' := first
      obtain ⟨new, distinct⟩ := List.nodup_cons.1 distinct
      have new' : key ∉ parts'.map Prod.fst := others ▸ new
      rw [List.forall₂_cons, ← ih distinct others]
      simp only [get?_shown_cons new, get?_shown_cons new']
      refine ⟨fun agree => ⟨?_, fun k => ?_⟩, fun ⟨here, rest⟩ k => ?_⟩
      · have here := agree key
        rwa [if_pos rfl, if_pos rfl] at here
      · have here := agree k
        split at here
        · rename_i same
          rw [← same, get?_shown_of_not_mem new, get?_shown_of_not_mem new']
          rfl
        · exact here
      · split
        · exact here
        · exact rest k

end Swagger

/-! ### Schemas that use the fields of their kind -/

namespace SchemaKind

def isPrimitive : SchemaKind → Bool
  | .string | .integer | .number | .boolean | .file => true
  | .array | .map | .ref | .object => false

/-- The type that a rendered schema names; maps are objects, and references name none. -/
def typeName? : SchemaKind → Option String
  | .ref => none
  | .map => some "object"
  | kind => some kind.name

/-- The type tells the kind, but for maps and objects. -/
theorem eq_of_typeName? {k k' : SchemaKind} (h : k.typeName? = k'.typeName?)
    (maps : k = .map ↔ k' = .map) : k = k' := by
  cases k <;> cases k' <;> simp_all [typeName?, name]

end SchemaKind

namespace Schema

/-- A schema sets no fields but those of its kind and those that every kind has. -/
structure OwnFields (s : Schema) : Prop where
  format : s.kind.isPrimitive = false → s.format = none
  formatted : s.format ≠ some ""
  items : s.kind ≠ .array → s.items = none
  values : s.kind ≠ .map → s.values = none
  ref : s.kind ≠ .ref → s.ref = none
  referred : s.kind = .ref → s.ref ≠ none ∧ s.ref ≠ some ""
  properties : s.kind ≠ .object → s.properties = []
  required : s.kind ≠ .object → s.required = []

/-- A schema and all schemas within it set no fields but their own. -/
inductive WellFormed : Schema → Prop where
  | intro {s : Schema} (own : s.OwnFields) (items : ∀ u, s.items = some u → WellFormed u)
      (values : ∀ u, s.values = some u → WellFormed u)
      (properties : ∀ e ∈ s.properties, WellFormed e.2) : WellFormed s

theorem wellFormed_primitive {kind : SchemaKind} {format : Option String} (enum : List Value)
    (hk : kind.isPrimitive = true) (hf : format ≠ some "") :
    (primitive kind format enum).WellFormed := by
  refine .intro ⟨?_, hf, ?_, ?_, ?_, ?_, ?_, ?_⟩ nofun nofun nofun <;> intro h <;>
    first | rfl | (cases kind <;> simp_all [primitive, SchemaKind.isPrimitive])

theorem wellFormed_refTo {name : String} (h : name ≠ "") : (refTo name).WellFormed :=
  .intro ⟨fun _ => rfl, nofun, fun _ => rfl, fun _ => rfl, fun hk => (hk rfl).elim,
    fun _ => ⟨nofun, fun hn => h (Option.some.inj hn)⟩, fun _ => rfl, fun _ => rfl⟩
    nofun nofun nofun

theorem WellFormed.arrayOf {s : Schema} (h : s.WellFormed) : (arrayOf s).WellFormed :=
  .intro ⟨fun _ => rfl, nofun, fun hk => (hk rfl).elim, fun _ => rfl, fun _ => rfl, nofun,
    fun _ => rfl, fun _ => rfl⟩ (fun _ hu => Option.some.inj hu ▸ h) nofun nofun

theorem WellFormed.mapOf {s : Schema} (h : s.WellFormed) : (mapOf s).WellFormed :=
  .intro ⟨fun _ => rfl, nofun, fun _ => rfl, fun hk => (hk rfl).elim, fun _ => rfl, nofun,
    fun _ => rfl, fun _ => rfl⟩ nofun (fun _ hu => Option.some.inj hu ▸ h) nofun

theorem wellFormed_object {properties : Table Schema} (h : ∀ e ∈ properties, e.2.WellFormed)
    (required : List String) (reference : Option String) :
    ({ kind := .object, properties, required, reference } : Schema).WellFormed :=
  .intro ⟨fun _ => rfl, nofun, fun _ => rfl, fun _ => rfl, fun _ => rfl, nofun,
    fun hk => (hk rfl).elim, fun hk => (hk rfl).elim⟩ nofun nofun h

end Schema

namespace Swagger

open Schema (WellFormed OwnFields agreesOption agreesTable)

variable {eq : Scalar → Scalar → Bool} {s t : Schema}

def textPart (s : String) : Option Value := if s = "" then none else some (.text s)

/-- The entries of a rendered schema, with those that are left out. -/
def parts (s : Schema) : List (String × Option Value) :=
  [("$ref", if s.kind = .ref then some (.text (definitionsPath ++ s.ref.getD "")) else none),
    ("type", s.kind.typeName?.map .text),
    ("items", if s.kind = .array then some (optionValue s.items) else none),
    ("additionalProperties", if s.kind = .map then some (optionValue s.values) else none),
    ("properties", if s.kind = .object ∧ s.properties ≠ [] then
      some (.record (tableEntries s.properties)) else none),
    ("required", if s.kind = .object ∧ s.required ≠ [] then some (.texts s.required) else none),
    ("format", if s.kind.isPrimitive then textPart (s.format.getD "") else none),
    ("enum", if s.enum.isEmpty then none else some (.list s.enum)),
    ("description", textPart s.description),
    ("default", if s.default.isNull then none else some s.default),
    ("x-access", textPart s.access)]

theorem textEntry_eq (key text : String) :
    textEntry key text = ((textPart text).map fun v => (key, v)).toList := by
  unfold textEntry textPart
  split <;> rfl

theorem schemaEntries_eq (s : Schema) : schemaEntries s = shown (parts s) := by
  obtain ⟨kind, format, items, values, ref, properties, required, enum, description, default,
    access, reference⟩ := s
  have annotations : annotationEntries enum description default access =
      shown [("enum", if enum.isEmpty then none else some (.list enum)),
        ("description", textPart description),
        ("default", if default.isNull then none else some default),
        ("x-access", textPart access)] := by
    simp only [annotationEntries, textEntry_eq, valueEntry, shown_cons]
    cases enum.isEmpty <;> cases default.isNull <;> simp [shown]
  simp only [parts, shown_cons]
  rw [shown_cons, shown_cons, shown_cons, shown_cons] at annotations
  cases kind with
  | object =>
    cases properties <;> cases required <;>
      simp [schemaEntries, annotations, textsEntry, SchemaKind.typeName?, SchemaKind.name,
        SchemaKind.isPrimitive]
  | _ =>
    simp [schemaEntries, annotations, SchemaKind.typeName?, SchemaKind.name,
      SchemaKind.isPrimitive, textEntry_eq]

theorem schemaEntries_ne_nil (s : Schema) : schemaEntries s ≠ [] := by
  obtain ⟨kind, format, items, values, ref, properties, required, enum, description, default,
    access, reference⟩ := s
  cases kind <;> simp [schemaEntries]

/-! #### Agreement of the entries -/

section Parts

variable (h : Scalar.Comparison eq)
include h

theorem agreesAt_textPart {a b : String} :
    Value.agreesAt eq (textPart a) (textPart b) = true ↔ a = b := by
  unfold textPart
  by_cases ha : a = "" <;> by_cases hb : b = ""
  · simp [ha, hb, Value.agreesAt]
  · simp [ha, hb, Value.agreesAt, Ne.symm hb]
  · simp [ha, hb, Value.agreesAt]
  · simp [ha, hb, Value.agreesAt, Value.agrees, h.texts]

theorem agreesAt_default {v w : Value} :
    Value.agreesAt eq (if v.isNull then none else some v)
      (if w.isNull then none else some w) = true ↔ v.agrees eq w = true := by
  have null {v : Value} (hv : v.isNull = true) : v = .null := by
    cases v with
    | scalar s => cases s <;> first | rfl | cases hv
    | list => cases hv
    | map => cases hv
  have left {v : Value} : Value.agrees eq .null v = true ↔ v = .null := by
    cases v <;> simp [Value.agrees, h.null_left]
  have right {v : Value} : Value.agrees eq v .null = true ↔ v = .null := by
    cases v <;> simp [Value.agrees, h.null_right]
  cases hv : v.isNull <;> cases hw : w.isNull
  · rfl
  · obtain rfl := null hw
    rw [right]
    refine ⟨nofun, ?_⟩
    rintro rfl
    cases hv
  · obtain rfl := null hv
    rw [left]
    refine ⟨nofun, ?_⟩
    rintro rfl
    cases hw
  · rw [null hv, null hw]
    exact iff_of_true rfl (left.2 rfl)

theorem agrees_texts {xs ys : List String} :
    (Value.texts xs).agrees eq (.texts ys) = true ↔ xs = ys :=
  Value.agreesList_texts h

end Parts

theorem agreesAt_enum {xs ys : List Value} :
    Value.agreesAt eq (if xs.isEmpty then none else some (.list xs))
      (if ys.isEmpty then none else some (.list ys)) = true ↔ Value.agreesList eq xs ys = true := by
  cases xs <;> cases ys <;> simp [Value.agreesAt, Value.agrees, Value.agreesList]

theorem agreesAt_when {c : Prop} [Decidable c] {v w : Value} :
    Value.agreesAt eq (if c then some v else none) (if c then some w else none) = true ↔
      (c → v.agrees eq w = true) := by
  by_cases hc : c <;> simp [hc, Value.agreesAt]

/-- Rendered schemas that agree are of one kind. -/
theorem kind_of_agrees (h : Scalar.Comparison eq)
    (type : Value.agreesAt eq (s.kind.typeName?.map .text) (t.kind.typeName?.map .text) = true)
    (values : Value.agreesAt eq (if s.kind = .map then some (optionValue s.values) else none)
      (if t.kind = .map then some (optionValue t.values) else none) = true) : s.kind = t.kind := by
  refine SchemaKind.eq_of_typeName? ?_ ?_
  · revert type
    cases s.kind.typeName? <;> cases t.kind.typeName? <;> intro type
    · rfl
    · cases type
    · cases type
    · exact congrArg some ((h.texts _ _).1 type)
  · by_cases hs : s.kind = .map <;> by_cases ht : t.kind = .map
    · exact iff_of_true hs ht
    · rw [if_pos hs, if_neg ht] at values
      cases values
    · rw [if_neg hs, if_pos ht] at values
      cases values
    · exact iff_of_false hs ht

section Nested

variable (h : Scalar.Comparison eq)
include h

/-- Nested schemas agree when the rendered ones do, if that holds of the schemas themselves. -/
theorem agrees_optionValue_iff {i j : Option Schema} (hj : ∀ u, j = some u → u.WellFormed)
    (ih : ∀ u, i = some u → ∀ {t : Schema}, t.WellFormed →
      ((schema u).agrees eq (schema t) = true ↔ u.agrees eq t = true)) :
    (optionValue i).agrees eq (optionValue j) = true ↔ agreesOption eq i j = true := by
  have filled {u : Schema} (count : 0 = (schemaEntries u).length) : False :=
    schemaEntries_ne_nil u (List.eq_nil_of_length_eq_zero count.symm)
  cases i with
  | none =>
    cases j with
    | none => exact iff_of_true rfl rfl
    | some u =>
      exact iff_of_false (fun agree => filled (u := u)
        ((Value.agrees_record_iff (t := []) h).1 agree).1) nofun
  | some u =>
    cases j with
    | none =>
      exact iff_of_false (fun agree => filled (u := u)
        ((Value.agrees_record_iff (u := []) h).1 agree).1.symm) nofun
    | some v => exact ih u rfl (hj v rfl)

theorem agrees_tableEntries_iff {ps qs : Table Schema} (hq : ∀ e ∈ qs, e.2.WellFormed)
    (ih : ∀ e ∈ ps, ∀ {t : Schema}, t.WellFormed →
      ((schema e.2).agrees eq (schema t) = true ↔ e.2.agrees eq t = true)) :
    (Value.record (tableEntries ps)).agrees eq (.record (tableEntries qs)) = true ↔
      ps.length = qs.length ∧ agreesTable eq ps qs = true := by
  rw [Value.agrees_record_iff h, tableEntries_eq, tableEntries_eq, Schema.agreesTable_iff]
  simp only [Table.get?_mapValues]
  refine and_congr (by simp [Table.mapValues]) ?_
  constructor
  · intro agree e he
    obtain ⟨w, hw, hagree⟩ := agree (e.1, schema e.2) (List.mem_map.2 ⟨e, he, rfl⟩)
    obtain ⟨u, hu, rfl⟩ := Option.map_eq_some_iff.1 hw
    exact ⟨u, hu, (ih e he (hq _ (Table.mem_of_get? hu))).1 hagree⟩
  · intro agree e he
    obtain ⟨e, he', rfl⟩ := List.mem_map.1 he
    obtain ⟨u, hu, hagree⟩ := agree e he'
    exact ⟨schema u, by rw [hu]; rfl, (ih e he' (hq _ (Table.mem_of_get? hu))).2 hagree⟩

end Nested

/-! #### Agreement of the fields that depend on the kind -/

/-- A nested schema that only one kind has. -/
theorem agreesAt_nested {k k' holder : SchemaKind} (kind : k = k') {i j : Option Schema}
    (hi : k ≠ holder → i = none) (hj : k' ≠ holder → j = none)
    (nested : (optionValue i).agrees eq (optionValue j) = true ↔ agreesOption eq i j = true) :
    Value.agreesAt eq (if k = holder then some (optionValue i) else none)
      (if k' = holder then some (optionValue j) else none) = true ↔
      agreesOption eq i j = true := by
  subst kind
  rw [agreesAt_when]
  by_cases hk : k = holder
  · rw [← nested]
    exact ⟨fun agree => agree hk, fun agree _ => agree⟩
  · rw [hi hk, hj hk]
    exact iff_of_true (fun here => (hk here).elim) rfl

section Fields

variable (h : Scalar.Comparison eq) (own : s.OwnFields) (own' : t.OwnFields)
  (kind : s.kind = t.kind)
include h own own' kind

theorem agreesAt_ref :
    Value.agreesAt eq
      (if s.kind = .ref then some (.text (definitionsPath ++ s.ref.getD "")) else none)
      (if t.kind = .ref then some (.text (definitionsPath ++ t.ref.getD "")) else none) = true ↔
      s.ref = t.ref := by
  rw [← kind, agreesAt_when]
  by_cases hk : s.kind = .ref
  · obtain ⟨a, ha⟩ := Option.ne_none_iff_exists'.1 (own.referred hk).1
    obtain ⟨b, hb⟩ := Option.ne_none_iff_exists'.1 (own'.referred (kind ▸ hk)).1
    simp [hk, ha, hb, Value.agrees, h.texts]
  · rw [own.ref hk, own'.ref (kind ▸ hk)]
    exact iff_of_true (fun here => (hk here).elim) rfl

theorem agreesAt_properties
    (nested : (Value.record (tableEntries s.properties)).agrees eq
      (.record (tableEntries t.properties)) = true ↔
      s.properties.length = t.properties.length ∧
        agreesTable eq s.properties t.properties = true) :
    Value.agreesAt eq
      (if s.kind = .object ∧ s.properties ≠ [] then
        some (.record (tableEntries s.properties)) else none)
      (if t.kind = .object ∧ t.properties ≠ [] then
        some (.record (tableEntries t.properties)) else none) = true ↔
      s.properties.length = t.properties.length ∧
        agreesTable eq s.properties t.properties = true := by
  rw [← kind]
  by_cases hk : s.kind = .object
  · rw [← nested]
    cases hp : s.properties with
    | nil =>
      cases hq : t.properties with
      | nil => simp [tableEntries, Value.agreesAt, Value.agrees_record_iff h]
      | cons => simp [hk, tableEntries, Value.agreesAt, Value.agrees_record_iff h]
    | cons =>
      cases hq : t.properties with
      | nil => simp [hk, tableEntries, Value.agreesAt, Value.agrees_record_iff h]
      | cons => simp [hk, Value.agreesAt]
  · rw [own.properties hk, own'.properties (kind ▸ hk)]
    simp [Value.agreesAt, Schema.agreesTable]

theorem agreesAt_required :
    Value.agreesAt eq
      (if s.kind = .object ∧ s.required ≠ [] then some (.texts s.required) else none)
      (if t.kind = .object ∧ t.required ≠ [] then some (.texts t.required) else none) = true ↔
      s.required = t.required := by
  rw [← kind]
  by_cases hk : s.kind = .object
  · cases hp : s.required with
    | nil => cases hq : t.required <;> simp [hk, Value.agreesAt]
    | cons =>
      cases hq : t.required with
      | nil => simp [hk, Value.agreesAt]
      | cons => simp [hk, Value.agreesAt, agrees_texts h]
  · rw [own.required hk, own'.required (kind ▸ hk)]
    simp [Value.agreesAt]

theorem agreesAt_format :
    Value.agreesAt eq (if s.kind.isPrimitive then textPart (s.format.getD "") else none)
      (if t.kind.isPrimitive then textPart (t.format.getD "") else none) = true ↔
      s.format = t.format := by
  rw [← kind]
  cases hk : s.kind.isPrimitive with
  | true =>
    rw [if_pos rfl, if_pos rfl, agreesAt_textPart h]
    cases hf : s.format with
    | none =>
      cases hf' : t.format with
      | none => exact iff_of_true rfl rfl
      | some b => exact iff_of_false (fun hb : "" = b => own'.formatted (hb ▸ hf')) nofun
    | some a =>
      cases hf' : t.format with
      | none => exact iff_of_false (fun ha : a = "" => own.formatted (ha ▸ hf)) nofun
      | some b => exact ⟨congrArg some, Option.some.inj⟩
  | false =>
    rw [own.format hk, own'.format (kind ▸ hk)]
    exact iff_of_true rfl rfl

end Fields

/-- Rendered schemas agree when the schemas do. -/
theorem agrees_schema_iff (h : Scalar.Comparison eq) (hs : s.WellFormed) (ht : t.WellFormed) :
    (schema s).agrees eq (schema t) = true ↔ s.agrees eq t = true := by
  induction hs generalizing t with
  | @intro s own items values properties ihItems ihValues ihProperties =>
    obtain ⟨own', items', values', properties'⟩ := ht
    have nestedItems := agrees_optionValue_iff h items' fun u hu _ ht => ihItems u hu ht
    have nestedValues := agrees_optionValue_iff h values' fun u hu _ ht => ihValues u hu ht
    have nestedProperties := agrees_tableEntries_iff h properties' fun e he _ ht =>
      ihProperties e he ht
    have distinct : ((parts s).map Prod.fst).Nodup := by simp [parts]
    have keys : (parts s).map Prod.fst = (parts t).map Prod.fst := rfl
    rw [schema, schema, schemaEntries_eq, schemaEntries_eq, agrees_shown_iff h distinct keys,
      Schema.agrees_iff]
    simp only [parts, List.forall₂_cons, List.Forall₂.nil, and_true, agreesAt_textPart h,
      agreesAt_default h, agreesAt_enum]
    constructor
    · rintro ⟨ref, type, items, values, properties, required, format, others⟩
      have kind := kind_of_agrees h type values
      exact ⟨kind, (agreesAt_ref h own own' kind).1 ref,
        (agreesAt_nested kind own.items own'.items nestedItems).1 items,
        (agreesAt_nested kind own.values own'.values nestedValues).1 values,
        (agreesAt_properties h own own' kind nestedProperties).1 properties,
        (agreesAt_required h own own' kind).1 required,
        (agreesAt_format h own own' kind).1 format, others⟩
    · rintro ⟨kind, ref, items, values, properties, required, format, others⟩
      refine ⟨(agreesAt_ref h own own' kind).2 ref, ?_,
        (agreesAt_nested kind own.items own'.items nestedItems).2 items,
        (agreesAt_nested kind own.values own'.values nestedValues).2 values,
        (agreesAt_properties h own own' kind nestedProperties).2 properties,
        (agreesAt_required h own own' kind).2 required,
        (agreesAt_format h own own' kind).2 format, others⟩
      rw [kind]
      cases t.kind.typeName? with
      | none => rfl
      | some name => exact (h.texts name name).2 rfl

/-- Rendering loses nothing of a schema that uses only the fields of its kind, but for the declared
types: rendered schemas are equal, up to the order of entries, when the schemas are up to the order
of properties. That holds with scalars as they are, and with numbers compared by value. -/
theorem schema_agrees_iff (hs : s.WellFormed) (ht : t.WellFormed) :
    ((schema s).agrees (· == ·) (schema t) = true ↔ s.agrees (· == ·) t = true) ∧
      ((schema s).same (schema t) = true ↔ s.unreferenced.same t.unreferenced = true) := by
  refine ⟨agrees_schema_iff Scalar.comparison_beq hs ht, ?_⟩
  rw [← Value.agrees_same, ← Schema.agrees_same]
  exact agrees_schema_iff Scalar.comparison_same hs ht

end Swagger

namespace Schema

/-- A pet with a map of its parents, its properties in a given order. -/
def pet (reversed : Bool) (reference : Option String) : Schema :=
  let properties := [("tags", arrayOf (primitive .string none [.text "cat", .text "dog"])),
    ("parents", mapOf (refTo "app.Pet"))]
  { kind := .object, properties := if reversed then properties.reverse else properties,
    required := ["tags"], reference }

theorem wellFormed_pet (reversed : Bool) (reference : Option String) :
    (pet reversed reference).WellFormed := by
  refine wellFormed_object (fun e he => ?_) _ _
  have tags : (arrayOf (primitive .string none [.text "cat", .text "dog"])).WellFormed :=
    (wellFormed_primitive _ rfl (by decide)).arrayOf
  have parents : (mapOf (refTo "app.Pet")).WellFormed := (wellFormed_refTo (by decide)).mapOf
  cases reversed <;> simp at he <;> rcases he with rfl | rfl <;> assumption

end Schema

/-- Pets with their properties in another order, from another type. -/
theorem Swagger.schema_agrees_iff_pets :
    ((schema (.pet false none)).same (schema (.pet true (some "zoo.Pet"))) = true ↔
      (Schema.pet false none).unreferenced.same (Schema.pet true (some "zoo.Pet")).unreferenced =
        true) ∧
    (schema (.pet false none)).same (schema (.pet true (some "zoo.Pet"))) = true :=
  ⟨(schema_agrees_iff (Schema.wellFormed_pet false none)
    (Schema.wellFormed_pet true (some "zoo.Pet"))).2, by decide⟩

end ApiCompiler
