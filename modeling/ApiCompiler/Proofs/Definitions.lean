import ApiCompiler.Document
import ApiCompiler.Primitive
import ApiCompiler.Proofs.Tables

/-!
# What definitions refer to

The names that a schema refers to, read off its parts, and what adding models does to the
definitions of a document: names are only gained, and any property of schemas that the union of two
of them keeps is kept by all definitions.
-/

set_option autoImplicit false

namespace ApiCompiler

namespace Schema

theorem mem_tableReferences {t : Table Schema} {n : String} :
    n ∈ tableReferences t ↔ ∃ e ∈ t, n ∈ e.2.references := by
  induction t with
  | nil => simp [tableReferences]
  | cons e t ih => simp [tableReferences, ih]

theorem mem_optionReferences {s : Option Schema} {n : String} :
    n ∈ optionReferences s ↔ ∃ t, s = some t ∧ n ∈ t.references := by
  cases s with
  | none => simp [optionReferences]
  | some t => simp [optionReferences]

/-- A schema refers to the name that it is a reference to, and to what its items, its values and its
properties refer to. -/
theorem mem_references {s : Schema} {n : String} :
    n ∈ s.references ↔
      (s.kind = .ref ∧ s.ref = some n ∧ n ≠ "") ∨ n ∈ optionReferences s.items ∨
        n ∈ optionReferences s.values ∨ n ∈ tableReferences s.properties := by
  obtain ⟨kind, _, items, values, ref, properties, _, _, _, _, _, _⟩ := s
  simp only [references, List.mem_append]
  have own : n ∈ (if kind = .ref then ref.toList.filter (· ≠ "") else []) ↔
      kind = .ref ∧ ref = some n ∧ n ≠ "" := by
    by_cases h : kind = .ref <;> simp [h]
  rw [own, or_assoc, or_assoc]

/-- Every required name is a property. -/
def RequiresOwn (s : Schema) : Prop := ∀ n ∈ s.required, Table.has s.properties n

@[simp] theorem references_arrayOf (s : Schema) : (arrayOf s).references = s.references := by
  simp [arrayOf, references, optionReferences, tableReferences]

@[simp] theorem references_mapOf (s : Schema) : (mapOf s).references = s.references := by
  simp [mapOf, references, optionReferences, tableReferences]

@[simp] theorem references_inContainer (s : Schema) (hint : String) :
    (s.inContainer hint).references = s.references := by
  unfold inContainer
  extract_lets hint
  split
  · exact references_arrayOf s
  · split
    · exact references_mapOf s
    · rfl

theorem eq_of_mem_references_refTo {name n : String} (h : n ∈ (refTo name).references) :
    n = name := by
  rcases mem_references.1 h with ⟨_, h, _⟩ | h | h | h
  · exact (Option.some.inj h).symm
  all_goals simp [refTo, optionReferences, tableReferences] at h

@[simp] theorem references_primitive {kind : SchemaKind} {format : Option String}
    {enum : List Value} :
    (primitive kind format enum).references = [] := by
  simp [primitive, references, optionReferences, tableReferences]

@[simp] theorem references_opaqueObject : opaqueObject.references = [] := by
  simp [opaqueObject, references, optionReferences, tableReferences]

theorem references_described (s : Schema) (description : String) :
    ({ s with description } : Schema).references = s.references := by
  cases s
  rfl

/-- An object schema refers to what its properties refer to. -/
theorem mem_references_object {properties : Table Schema} {required : List String}
    {reference : Option String} {n : String} :
    n ∈ references { kind := .object, properties, required, reference } ↔
      n ∈ tableReferences properties := by
  simp [mem_references (s := { kind := .object, properties, required, reference }),
    optionReferences]

theorem mem_tableReferences_insert {t : Table Schema} {k n : String} {s : Schema}
    (h : n ∈ tableReferences (t.insert k s)) : n ∈ s.references ∨ n ∈ tableReferences t := by
  obtain ⟨e, he, hn⟩ := mem_tableReferences.1 h
  rcases Table.mem_insert he with rfl | he
  · exact .inl hn
  · exact .inr (mem_tableReferences.2 ⟨e, he, hn⟩)

/-- Required names stay properties while a property is written that may be required itself. -/
theorem has_insert_of_required {properties : Table Schema} {required : List String}
    {name : String} {s : Schema} {needed : Bool} (h : ∀ n ∈ required, properties.has n) :
    ∀ n ∈ (if needed then required ++ [name] else required), (properties.insert name s).has n := by
  have old : ∀ n ∈ required, (properties.insert name s).has n := fun n hn =>
    Table.has_insert.2 (.inr (h n hn))
  intro n hn
  split at hn
  · rcases List.mem_append.1 hn with hn | hn
    · exact old n hn
    · exact Table.has_insert.2 (.inl (List.mem_singleton.1 hn).symm)
  · exact old n hn

end Schema

namespace Primitive

theorem references_find {name : String} {s : Schema} (h : find? name = some s) :
    s.references = [] := by
  unfold find? at h
  extract_lets key at h
  split at h
  · cases h
    exact Schema.references_opaqueObject
  · obtain ⟨_, _, rfl⟩ := Option.map_eq_some_iff.1 h
    exact Schema.references_primitive

theorem references_schema (name : String) : (schema name).1.references = [] := by
  unfold schema
  cases h : find? name with
  | none => exact Schema.references_primitive
  | some s => exact references_find h

theorem references_check {name : Option String} {s : Schema} (h : check name = .ok s) :
    s.references = [] := by
  unfold check at h
  cases hf : find? (name.getD "") with
  | none => simp [hf] at h
  | some t =>
    rw [hf] at h
    cases h
    exact references_find hf

end Primitive

namespace Document

theorem addModel_document (d : Document) (name : String) (model : Schema) :
    (d.addModel name model).1 = { d with
      definitions := d.definitions.insert name (combine name (d.definitions.get? name) model).1 } :=
  rfl

theorem addModels_nil (d : Document) : (d.addModels []).1 = d := rfl

/-- The document does not depend on what is reported on the way. -/
theorem addModels_fst (d : Document) (models : Table Schema) :
    (d.addModels models).1 = models.foldl (fun d e => (d.addModel e.1 e.2).1) d := by
  unfold addModels
  generalize ([] : List Notice) = notices
  induction models generalizing d notices with
  | nil => rfl
  | cons e models ih => exact ih _ _

theorem addModels_cons (d : Document) (e : String × Schema) (models : Table Schema) :
    (d.addModels (e :: models)).1 = ((d.addModel e.1 e.2).1.addModels models).1 := by
  rw [addModels_fst, addModels_fst, List.foldl_cons]

/-- What is reported is put after what has been reported before. -/
theorem foldl_addModel_snd (models : Table Schema) (d : Document) (notices : List Notice) :
    (models.foldl (fun acc e =>
      ((acc.1.addModel e.1 e.2).1, acc.2 ++ (acc.1.addModel e.1 e.2).2)) (d, notices)).2 =
      notices ++ (d.addModels models).2 := by
  induction models generalizing d notices with
  | nil => exact (List.append_nil notices).symm
  | cons e models ih =>
    rw [List.foldl_cons, ih, List.append_assoc]
    exact congrArg (notices ++ ·) (ih (d.addModel e.1 e.2).1 (d.addModel e.1 e.2).2).symm

theorem addModels_snd_cons (d : Document) (e : String × Schema) (models : Table Schema) :
    (d.addModels (e :: models)).2 =
      (d.addModel e.1 e.2).2 ++ ((d.addModel e.1 e.2).1.addModels models).2 :=
  foldl_addModel_snd models _ _

theorem addModels_append (d : Document) (models more : Table Schema) :
    (d.addModels (models ++ more)).1 = ((d.addModels models).1.addModels more).1 ∧
      (d.addModels (models ++ more)).2 =
        (d.addModels models).2 ++ ((d.addModels models).1.addModels more).2 := by
  induction models generalizing d with
  | nil => exact ⟨rfl, rfl⟩
  | cons e models ih =>
    obtain ⟨fst, snd⟩ := ih (d.addModel e.1 e.2).1
    rw [List.cons_append, addModels_cons, addModels_cons, addModels_snd_cons, addModels_snd_cons,
      fst, snd, List.append_assoc]
    exact ⟨rfl, rfl⟩

/-- Adding models looks at nothing but the definitions. -/
theorem addModels_congr {d d' : Document} (h : d.definitions = d'.definitions)
    (models : Table Schema) :
    (d.addModels models).1.definitions = (d'.addModels models).1.definitions ∧
      (d.addModels models).2 = (d'.addModels models).2 := by
  induction models generalizing d d' with
  | nil => exact ⟨h, rfl⟩
  | cons e models ih =>
    have first : (d.addModel e.1 e.2).1.definitions = (d'.addModel e.1 e.2).1.definitions := by
      rw [addModel_document, addModel_document, h]
    obtain ⟨definitions, notices⟩ := ih first
    rw [addModels_cons, addModels_cons, addModels_snd_cons, addModels_snd_cons, definitions,
      notices]
    refine ⟨rfl, congrArg (· ++ _) ?_⟩
    show (combine e.1 (d.definitions.get? e.1) e.2).2 =
      (combine e.1 (d'.definitions.get? e.1) e.2).2
    rw [h]

/-- Adding models changes nothing but the definitions. -/
theorem addModels_document (models : Table Schema) (d : Document) :
    ∃ definitions, (d.addModels models).1 = { d with definitions } := by
  induction models generalizing d with
  | nil => exact ⟨d.definitions, rfl⟩
  | cons e models ih =>
    obtain ⟨definitions, h⟩ := ih (d.addModel e.1 e.2).1
    exact ⟨definitions, by rw [addModels_cons, h, addModel_document]⟩

theorem has_addModel {d : Document} {name n : String} {model : Schema} :
    (d.addModel name model).1.definitions.has n ↔ name = n ∨ d.definitions.has n :=
  Table.has_insert

theorem has_addModels {models : Table Schema} {d : Document} {n : String} :
    (d.addModels models).1.definitions.has n ↔ models.has n ∨ d.definitions.has n := by
  induction models generalizing d with
  | nil => simp [addModels_nil, Table.has]
  | cons e models ih =>
    rw [addModels_cons, ih, has_addModel, Table.has_iff_mem_keys (t := e :: models)]
    simp only [Table.keys, List.map_cons, List.mem_cons]
    rw [← Table.keys, ← Table.has_iff_mem_keys, eq_comm (a := n)]
    exact or_left_comm.trans or_assoc.symm

/-- What the definitions of a document and an added model have in common is true of the definitions
after that, when uniting two schemas preserves it. -/
theorem forall_addModel {P : Schema → Prop} (hu : ∀ s t, P s → P t → P (unite s t))
    {d : Document} {name : String} {model : Schema} (hd : ∀ e ∈ d.definitions, P e.2)
    (hm : P model) : ∀ e ∈ (d.addModel name model).1.definitions, P e.2 := by
  refine Table.forall_insert hd ?_
  cases h : d.definitions.get? name with
  | none => exact hm
  | some old =>
    have hold : P old := hd _ (Table.mem_of_get? h)
    show P (combine name (some old) model).1
    unfold combine
    simp only
    split
    · exact hold
    · split
      · exact hu old model hold hm
      · exact hm

theorem forall_addModels {P : Schema → Prop} (hu : ∀ s t, P s → P t → P (unite s t))
    {models : Table Schema} {d : Document} (hd : ∀ e ∈ d.definitions, P e.2)
    (hm : ∀ e ∈ models, P e.2) : ∀ e ∈ (d.addModels models).1.definitions, P e.2 := by
  induction models generalizing d with
  | nil => exact hd
  | cons e models ih =>
    rw [addModels_cons]
    exact ih (forall_addModel hu hd (hm e List.mem_cons_self))
      fun e' he' => hm e' (List.mem_cons_of_mem _ he')

theorem mem_references_unite {s t : Schema} {n : String} (h : n ∈ (unite s t).references) :
    n ∈ s.references ∨ n ∈ t.references := by
  rcases Schema.mem_references.1 h with h | h | h | h
  · exact .inr (Schema.mem_references.2 (.inl h))
  · exact .inr (Schema.mem_references.2 (.inr (.inl h)))
  · exact .inr (Schema.mem_references.2 (.inr (.inr (.inl h))))
  · obtain ⟨e, he, hn⟩ := Schema.mem_tableReferences.1 h
    have inTable : ∀ {u : Schema}, e ∈ u.properties → n ∈ u.references := fun hu =>
      Schema.mem_references.2 (.inr (.inr (.inr (Schema.mem_tableReferences.2 ⟨e, hu, hn⟩))))
    exact (Table.mem_merge he).imp inTable inTable

theorem requiresOwn_unite {s t : Schema} (hs : s.RequiresOwn) (ht : t.RequiresOwn) :
    (unite s t).RequiresOwn := by
  intro n hn
  rw [unite, Table.has_merge]
  exact (List.mem_append.1 (mem_distinctNames.1 hn)).imp (hs n) (ht n)

end Document

end ApiCompiler
