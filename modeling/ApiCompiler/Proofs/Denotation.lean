import Mathlib.Logic.Relation
import ApiCompiler.Proofs.Steps
import ApiCompiler.Proofs.Tables
import ApiCompiler.Resolution.Resolve

/-!
# What types denote

The schema of a type as a relation that knows no registry: `World.Denotes` goes down the shapes of
a type until it comes to an object type, which it leaves at a reference. What is behind the
references is `World.modelOf`, the model that the fields of an object type make with the schemas of
their types. `World.Descends` leads from a type to the types that it is made of, through fields as
well, so that it may run in circles; `Denotes` does not.
-/

set_option autoImplicit false

namespace ApiCompiler

/-- The type whose schema a shape is made from: the element of a token, the only member of a union,
the items of an array, the values of a map. -/
def Shape.part? : Shape → Option TypeExpr
  | .alike t => some t
  | .array item => item
  | .map value => value
  | _ => none

/-- The schema that a shape makes of the schema of its part. -/
def Shape.around : Shape → Schema → Schema
  | .array _, s => .arrayOf s
  | .map _, s => .mapOf s
  | _, s => s

/-- The schema of a shape that has no part and that no model is needed for. -/
def Shape.flat? : Shape → Option Schema
  | .fixed s => some s
  | .array none => some (.arrayOf .opaqueObject)
  | .map none => some (.mapOf .opaqueObject)
  | .unmappable _ => some .opaqueObject
  | _ => none

theorem Shape.part?_of_flat {shape : Shape} {s : Schema} (h : shape.flat? = some s) :
    shape.part? = none := by
  cases shape with
  | fixed | model | unmappable => rfl
  | alike => cases h
  | array item =>
    cases item with
    | none => rfl
    | some _ => cases h
  | map value =>
    cases value with
    | none => rfl
    | some _ => cases h

namespace World

variable (w : World) (o : Overrides)

/-- From a type to the one that its schema is made from. -/
def PartOf (t u : TypeExpr) : Prop := (w.shape o t).part? = some u

/-- An object type that nothing overrides, and its fields. -/
structure HasFields (t : TypeExpr) (fields : List ModelField) : Prop where
  shape : w.shape o t = .model
  found : w.fieldsOf t.bare = .ok fields

/-- One step of the way that resolution takes through types. -/
inductive Descends : TypeExpr → TypeExpr → Prop
  | part {t u : TypeExpr} (h : w.PartOf o t u) : Descends t u
  | field {t : TypeExpr} {fields : List ModelField} {f : ModelField} (h : w.HasFields o t fields)
      (hf : f ∈ fields) : Descends t f.type

/-- The types that resolution comes to from some types. -/
def Met (roots : List TypeExpr) (t : TypeExpr) : Prop :=
  ∃ root ∈ roots, Relation.ReflTransGen (w.Descends o) root t

/-- Something is true of the object type that the schema of a type refers to, if there is one. -/
def Referred (Q : TypeExpr → Prop) (t : TypeExpr) : Prop :=
  ∀ ⦃u : TypeExpr⦄ ⦃fields : List ModelField⦄, Relation.ReflTransGen (w.PartOf o) t u →
    w.HasFields o u fields → Q u

/-- The schema of a type. -/
inductive Denotes : TypeExpr → Schema → Prop
  | fixed {t : TypeExpr} {s : Schema} (h : w.shape o t = .fixed s) : Denotes t s
  | alike {t u : TypeExpr} {s : Schema} (h : w.shape o t = .alike u) (hu : Denotes u s) :
      Denotes t s
  | array {t : TypeExpr} (h : w.shape o t = .array none) : Denotes t (.arrayOf .opaqueObject)
  | items {t u : TypeExpr} {s : Schema} (h : w.shape o t = .array (some u)) (hu : Denotes u s) :
      Denotes t (.arrayOf s)
  | map {t : TypeExpr} (h : w.shape o t = .map none) : Denotes t (.mapOf .opaqueObject)
  | values {t u : TypeExpr} {s : Schema} (h : w.shape o t = .map (some u)) (hu : Denotes u s) :
      Denotes t (.mapOf s)
  | object {t : TypeExpr} {fields : List ModelField} {name : String} (h : w.HasFields o t fields)
      (hn : w.modelName t.bare = .ok name) : Denotes t (.refTo name)
  | fieldless {t : TypeExpr} {name reason : String} (h : w.shape o t = .model)
      (hn : w.modelName t.bare = .ok name) (hf : w.fieldsOf t.bare = .error reason) :
      Denotes t .opaqueObject
  | unmappable {t : TypeExpr} {reason : String} (h : w.shape o t = .unmappable reason) :
      Denotes t .opaqueObject

variable {w o} {t u : TypeExpr} {s s' : Schema}

theorem HasFields.unique {fields fields' : List ModelField} (h : w.HasFields o t fields)
    (h' : w.HasFields o u fields') (hb : t.bare = u.bare) : fields = fields' := by
  have found : w.fieldsOf u.bare = .ok fields := hb ▸ h.found
  exact Except.ok.inj (found.symm.trans h'.found)

theorem partOf_of_shape {shape : Shape} (h : w.shape o t = shape) (hp : shape.part? = some u) :
    w.PartOf o t u := by
  rw [PartOf, h]
  exact hp

/-- The schema of a type is made from that of another one, or it refers to a model, or it stands by
itself. -/
theorem shape_cases (w : World) (o : Overrides) (t : TypeExpr) :
    (∃ u, w.PartOf o t u) ∨ w.shape o t = .model ∨ ∃ s, (w.shape o t).flat? = some s := by
  unfold PartOf
  cases w.shape o t with
  | fixed s => exact .inr (.inr ⟨s, rfl⟩)
  | alike u => exact .inl ⟨u, rfl⟩
  | array item =>
    cases item with
    | none => exact .inr (.inr ⟨_, rfl⟩)
    | some u => exact .inl ⟨u, rfl⟩
  | map value =>
    cases value with
    | none => exact .inr (.inr ⟨_, rfl⟩)
    | some u => exact .inl ⟨u, rfl⟩
  | model => exact .inr (.inl rfl)
  | unmappable reason => exact .inr (.inr ⟨_, rfl⟩)

theorem PartOf.unique {v : TypeExpr} (h : w.PartOf o t u) (h' : w.PartOf o t v) : u = v :=
  Option.some.inj (h.symm.trans h')

theorem HasFields.not_partOf {fields : List ModelField} (h : w.HasFields o t fields) :
    ¬ w.PartOf o t u := by
  intro hp
  unfold PartOf at hp
  rw [h.shape] at hp
  cases hp

namespace Referred

variable {Q Q' : TypeExpr → Prop}

theorem mono (h : ∀ v, Q v → Q' v) (ht : w.Referred o Q t) : w.Referred o Q' t :=
  fun v _ hv hf => h v (ht hv hf)

theorem part (h : w.PartOf o t u) (ht : w.Referred o Q t) : w.Referred o Q u :=
  fun _ _ hv hf => ht (.head h hv) hf

theorem of_part (h : w.PartOf o t u) (hu : w.Referred o Q u) : w.Referred o Q t := by
  intro v fields hv hf
  rcases hv.cases_head with rfl | ⟨u', hu', hv⟩
  · exact absurd h hf.not_partOf
  · obtain rfl := h.unique hu'
    exact hu hv hf

theorem of_no_part (hp : (w.shape o t).part? = none)
    (h : ∀ fields, w.HasFields o t fields → Q t) : w.Referred o Q t := by
  intro v fields hv hf
  rcases hv.cases_head with rfl | ⟨u, hu, _⟩
  · exact h fields hf
  · exact absurd (hp.symm.trans hu) (by simp)

/-- A schema that stands by itself refers to no model. -/
theorem of_flat (h : (w.shape o t).flat? = some s) : w.Referred o Q t := by
  refine of_no_part (Shape.part?_of_flat h) fun fields hf => ?_
  rw [hf.shape] at h
  cases h

end Referred

/-- What a type denotes, read off its shape. -/
theorem Denotes.by_shape (h : w.Denotes o t s) :
    match w.shape o t with
    | .fixed r => s = r
    | .alike u => w.Denotes o u s
    | .array none => s = .arrayOf .opaqueObject
    | .array (some u) => ∃ r, w.Denotes o u r ∧ s = .arrayOf r
    | .map none => s = .mapOf .opaqueObject
    | .map (some u) => ∃ r, w.Denotes o u r ∧ s = .mapOf r
    | .model => ∃ name, w.modelName t.bare = .ok name ∧
        s = if (w.fieldsOf t.bare).isOk then .refTo name else .opaqueObject
    | .unmappable _ => s = .opaqueObject := by
  cases h with
  | fixed h => rw [h]
  | alike h hu => rw [h]; exact hu
  | array h => rw [h]
  | items h hu => rw [h]; exact ⟨_, hu, rfl⟩
  | map h => rw [h]
  | values h hu => rw [h]; exact ⟨_, hu, rfl⟩
  | object h hn => rw [h.shape, h.found]; exact ⟨_, hn, rfl⟩
  | fieldless h hn hf => rw [h, hf]; exact ⟨_, hn, rfl⟩
  | unmappable h => rw [h]

theorem Denotes.of_part (h : w.PartOf o t u) (hu : w.Denotes o u s) :
    w.Denotes o t ((w.shape o t).around s) := by
  unfold PartOf at h
  cases hs : w.shape o t with
  | fixed | model | unmappable => rw [hs] at h; cases h
  | alike v => rw [hs] at h; cases h; exact .alike hs hu
  | array item => rw [hs] at h; cases h; exact .items hs hu
  | map value => rw [hs] at h; cases h; exact .values hs hu

theorem Denotes.of_flat (h : (w.shape o t).flat? = some s) : w.Denotes o t s := by
  cases hs : w.shape o t with
  | alike | model => rw [hs] at h; cases h
  | fixed r => rw [hs] at h; cases h; exact .fixed hs
  | array item =>
    rw [hs] at h
    cases item <;> cases h
    exact .array hs
  | map value =>
    rw [hs] at h
    cases value <;> cases h
    exact .map hs
  | unmappable reason => rw [hs] at h; cases h; exact .unmappable hs

/-- Induction on what a type denotes, with one case for all shapes that have a part. -/
@[elab_as_elim]
theorem Denotes.induct {motive : (t : TypeExpr) → (s : Schema) → w.Denotes o t s → Prop}
    (flat : ∀ {t s} (h : (w.shape o t).flat? = some s), motive t s (.of_flat h))
    (part : ∀ {t u s} (h : w.PartOf o t u) (hu : w.Denotes o u s), motive u s hu →
      motive t ((w.shape o t).around s) (.of_part h hu))
    (object : ∀ {t fields name} (h : w.HasFields o t fields) (hn : w.modelName t.bare = .ok name),
      motive t (.refTo name) (.object h hn))
    (fieldless : ∀ {t name reason} (h : w.shape o t = .model) (hn : w.modelName t.bare = .ok name)
      (hf : w.fieldsOf t.bare = .error reason), motive t .opaqueObject (.fieldless h hn hf))
    (h : w.Denotes o t s) : motive t s h := by
  have made {t u s s'} (hp : w.PartOf o t u) (hu : w.Denotes o u s) (ih : motive u s hu)
      (hs : (w.shape o t).around s = s') (h : w.Denotes o t s') : motive t s' h := by
    subst hs
    exact part hp hu ih
  induction h with
  | fixed h | array h | map h | unmappable h => exact flat (by rw [h]; rfl)
  | alike h hu ih | items h hu ih | values h hu ih =>
    exact made (partOf_of_shape h rfl) hu ih (by rw [h]; rfl) _
  | object h hn => exact object h hn
  | fieldless h hn hf => exact fieldless h hn hf

/-- A type denotes one schema at most. -/
theorem Denotes.unique (h : w.Denotes o t s) (h' : w.Denotes o t s') : s = s' := by
  have g := h'.by_shape
  clear h'
  induction h generalizing s' with
  | fixed h | array h | map h | unmappable h => rw [h] at g; exact g.symm
  | alike h _ ih => rw [h] at g; exact ih g.by_shape
  | items h _ ih =>
    rw [h] at g
    obtain ⟨r, hr, rfl⟩ := g
    rw [ih hr.by_shape]
  | values h _ ih =>
    rw [h] at g
    obtain ⟨r, hr, rfl⟩ := g
    rw [ih hr.by_shape]
  | object h hn =>
    rw [h.shape, h.found] at g
    obtain ⟨name, hname, rfl⟩ := g
    rw [Except.ok.inj (hn.symm.trans hname)]
    rfl
  | fieldless h hn hf =>
    rw [h, hf] at g
    obtain ⟨_, _, rfl⟩ := g
    rfl

theorem Met.trans {roots : List TypeExpr} (h : w.Met o roots t)
    (hd : Relation.ReflTransGen (w.Descends o) t u) : w.Met o roots u := by
  obtain ⟨root, hroot, ht⟩ := h
  exact ⟨root, hroot, ht.trans hd⟩

theorem Met.of_mem {roots : List TypeExpr} (h : t ∈ roots) : w.Met o roots t := ⟨t, h, .refl⟩

end World

namespace Run

variable {w : World} {f : TypeExpr → Run Schema} {t u : TypeExpr} {p q : Progress} {s : Schema}

theorem resolveShape_of_part (h : w.PartOf p.registry.overrides t u) :
    resolveShape w f t p =
      (f u >>= fun s => pure ((w.shape p.registry.overrides t).around s)) p := by
  unfold resolveShape
  unfold World.PartOf at h
  rw [bind_of_ok (get_apply p)]
  cases hs : w.shape p.registry.overrides t with
  | fixed | model | unmappable => rw [hs] at h; cases h
  | alike v =>
    rw [hs] at h
    cases h
    change f u p = _
    cases hf : f u p with
    | ok s q => rw [bind_of_ok hf]; rfl
    | error e q => rw [bind_of_error hf]
  | array item => rw [hs] at h; cases h; rfl
  | map value => rw [hs] at h; cases h; rfl

theorem resolveShape_of_model (h : w.shape p.registry.overrides t = .model) :
    resolveShape w f t p = resolveModel w f t.bare p := by
  unfold resolveShape
  rw [bind_of_ok (get_apply p), h]

theorem resolveShape_of_flat (h : (w.shape p.registry.overrides t).flat? = some s) :
    ∃ notices, resolveShape w f t p = .ok s { p with notices } := by
  unfold resolveShape
  rw [bind_of_ok (get_apply p)]
  cases hs : w.shape p.registry.overrides t with
  | alike | model => rw [hs] at h; cases h
  | fixed r => rw [hs] at h; cases h; exact ⟨_, rfl⟩
  | array item => rw [hs] at h; cases item <;> cases h; exact ⟨_, rfl⟩
  | map value => rw [hs] at h; cases value <;> cases h; exact ⟨_, rfl⟩
  | unmappable reason => rw [hs] at h; cases h; exact ⟨_, rfl⟩

/-- What resolving a type comes to: resolving the one type that its schema is made from, or finding
the model of an object type, or nothing that the registry is needed for. -/
theorem resolveShape_cases (h : resolveShape w f t p = .ok s q) :
    (∃ u r, w.PartOf p.registry.overrides t u ∧ f u p = .ok r q ∧
      s = (w.shape p.registry.overrides t).around r) ∨
    (w.shape p.registry.overrides t = .model ∧ resolveModel w f t.bare p = .ok s q) ∨
    ((w.shape p.registry.overrides t).flat? = some s ∧ ∃ notices, q = { p with notices }) := by
  rcases w.shape_cases p.registry.overrides t with ⟨u, hu⟩ | hm | ⟨r, hr⟩
  · rw [resolveShape_of_part hu] at h
    obtain ⟨r, _, hr, h⟩ := bind_ok.1 h
    obtain ⟨hs, rfl⟩ := pure_ok.1 h
    exact .inl ⟨u, r, hu, hr, hs.symm⟩
  · rw [resolveShape_of_model hm] at h
    exact .inr (.inl ⟨hm, h⟩)
  · obtain ⟨notices, hq⟩ := resolveShape_of_flat (f := f) hr
    rw [hq] at h
    cases h
    exact .inr (.inr ⟨hr, notices, rfl⟩)

end Run

/-- The schema of a field, given that of its type. -/
def ModelField.schemaOf (f : ModelField) (s : Schema) : Schema :=
  if f.description = "" then s else { s with description := f.description }

/-- The properties that fields make with the schemas of their types. -/
def World.fieldProperties (fields : List ModelField) (schemas : List Schema) :
    List (String × Schema) :=
  List.zipWith (fun f s => (f.name, f.schemaOf s)) fields schemas

/-- The names of the required fields. -/
def World.requiredNames (fields : List ModelField) : List String :=
  (fields.filter ModelField.required).map ModelField.name

/-- The model of an object type, given the schemas of the types of its fields. -/
def World.modelOf (name : String) (fields : List ModelField) (schemas : List Schema) : Schema :=
  { kind := .object
    properties := Table.ofList (fieldProperties fields schemas)
    required := requiredNames fields
    reference := some name }

end ApiCompiler
