import ApiCompiler.Proofs.ClassFields
import ApiCompiler.Proofs.Declaring
import ApiCompiler.Proofs.Hints
import ApiCompiler.Proofs.Merging

/-!
# Fields that have to be given

Each way of declaring a class has its own rule for whether a field may be left out: by its default,
by a mark on its type, or by a value of its name in the class. Nothing else is looked at. That the
annotation of a field lets it be empty is not among the rules.
-/

set_option autoImplicit false

namespace ApiCompiler

namespace ClassSpec

variable {spec : ClassSpec} {w : World} {above : List TypeExpr} {fd : FieldDecl}

theorem names_putField (f : FieldDecl) (gs : List FieldDecl) :
    (putField f gs).map FieldDecl.name = Table.addKey (gs.map FieldDecl.name) f.name := by
  induction gs with
  | nil => rfl
  | cons g gs ih =>
    unfold putField
    by_cases h : g.name = f.name
    · have kept : (if isAssigned f then f else { g with type := f.type }).name = g.name := by
        split
        · exact h.symm
        · rfl
      rw [if_pos h, List.map_cons, kept, List.map_cons, Table.addKey, if_pos (by simp [h])]
    · rw [if_neg h, List.map_cons, ih, List.map_cons]
      unfold Table.addKey
      by_cases hmem : f.name ∈ gs.map FieldDecl.name
      · rw [if_pos hmem, if_pos (List.mem_cons_of_mem _ hmem)]
      · rw [if_neg hmem, if_neg (by simp [hmem, Ne.symm h])]
        rfl

/-- A class has each of its own fields once. -/
theorem ownFields_nodup (spec : ClassSpec) : (spec.ownFields.map FieldDecl.name).Nodup := by
  have names (fields acc : List FieldDecl) :
      (fields.foldl (fun acc f => putField f acc) acc).map FieldDecl.name =
        (fields.map FieldDecl.name).foldl Table.addKey (acc.map FieldDecl.name) := by
    induction fields generalizing acc with
    | nil => rfl
    | cons f fields ih => rw [List.foldl_cons, ih, names_putField]; rfl
  unfold ownFields
  rw [names]
  exact Table.nodup_foldl_addKey List.nodup_nil

/-- Own fields are told apart by their names. -/
theorem ownFields_eq {fd fd' : FieldDecl} (h : fd ∈ spec.ownFields) (h' : fd' ∈ spec.ownFields)
    (hname : fd.name = fd'.name) : fd = fd' :=
  List.inj_on_of_nodup_map spec.ownFields_nodup h h' hname

/-- What is made of each own field is found under its name. -/
theorem lastAt_ownFields {α : Type} (g : FieldDecl → α) (keep : FieldDecl → Bool)
    (h : fd ∈ spec.ownFields) (hk : keep fd = true) :
    Table.lastAt ((spec.ownFields.filter keep).map fun f => (f.name, g f)) fd.name =
      some (g fd) := by
  have distinct : Table.Distinct ((spec.ownFields.filter keep).map fun f => (f.name, g f)) := by
    have names : Table.keys ((spec.ownFields.filter keep).map fun f => (f.name, g f)) =
        (spec.ownFields.filter keep).map FieldDecl.name := by
      simp [Table.keys]
    unfold Table.Distinct
    rw [names]
    exact (List.filter_sublist.map _).nodup spec.ownFields_nodup
  rw [distinct.lastAt]
  exact distinct.get?_of_mem
    (List.mem_map.2 ⟨fd, List.mem_filter.2 ⟨h, hk⟩, rfl⟩)

theorem lastAt_own {α : Type} (g : FieldDecl → α) (h : fd ∈ spec.ownFields) :
    Table.lastAt (spec.ownFields.map fun f => (f.name, g f)) fd.name = some (g fd) := by
  have own := lastAt_ownFields g (fun _ => true) h rfl
  rwa [List.filter_true] at own

/-- Nothing is made of the own fields under another name. -/
theorem lastAt_other {α : Type} (g : FieldDecl → α) {x : String}
    (other : x ∉ spec.ownFields.map FieldDecl.name) :
    Table.lastAt (spec.ownFields.map fun f => (f.name, g f)) x = none := by
  refine Table.lastAt_eq_none fun e he hname => other ?_
  obtain ⟨f, hf, rfl⟩ := List.mem_map.1 he
  exact List.mem_map.2 ⟨f, hf, hname⟩

/-- An own field of a validated model is one of its fields. -/
theorem mem_modelFields (h : fd ∈ spec.ownFields) (hfield : isModelField fd = true) :
    (fd.name, modelField w fd) ∈ spec.modelFields w above := by
  have own := lastAt_ownFields (modelField w) isModelField h hfield
  refine List.mem_filter.2 ⟨Table.mem_of_get? ?_, ?_⟩
  · have written : Table.get? (Table.ofList
        ((spec.ownFields.filter isModelField).map fun f => (f.name, modelField w f))) fd.name =
          some (modelField w fd) := by
      unfold Table.ofList
      rw [Table.get?_merge, own]
      rfl
    have distinct : Table.Distinct (Table.ofList
        ((spec.ownFields.filter isModelField).map fun f => (f.name, modelField w f))) :=
      Table.distinct_nil.merge _
    rw [Table.get?_merge, distinct.lastAt, written]
    rfl
  · have shown : fd.name ∉ (spec.ownFields.filter fun f => World.isClassVar f.type).map
        FieldDecl.name := by
      intro hmem
      obtain ⟨f, hf, hname⟩ := List.mem_map.1 hmem
      obtain ⟨hf, hvar⟩ := List.mem_filter.1 hf
      obtain rfl := ownFields_eq hf h hname
      unfold isModelField at hfield
      rw [hvar] at hfield
      cases hfield
    simpa using shown

/-- The data field that is made of an own field. -/
def dataField (w : World) (above : List TypeExpr) (f : FieldDecl) : DataField where
  name := f.name
  required := !f.hasDefault && !f.hasFactory &&
    (isAssigned f || !w.someHasAttribute above f.name)
  description := f.description
  isClassVar := World.isClassVar f.type

/-- Putting a data field among others is writing it under its name. -/
theorem putDataField_insert (f : DataField) (gs : List DataField) :
    (putDataField f gs).map (fun g => (g.name, g)) =
      Table.insert (gs.map fun g => (g.name, g)) f.name f := by
  induction gs with
  | nil => rfl
  | cons g gs ih =>
    unfold putDataField
    by_cases h : g.name = f.name
    · rw [if_pos h, List.map_cons, List.map_cons, Table.insert, if_pos h, h]
    · rw [if_neg h, List.map_cons, ih, List.map_cons, Table.insert, if_neg h]

theorem dataFields_merge (fs acc : List DataField) :
    (fs.foldl (fun acc f => putDataField f acc) acc).map (fun g => (g.name, g)) =
      Table.merge (acc.map fun g => (g.name, g)) (fs.map fun g => (g.name, g)) := by
  induction fs generalizing acc with
  | nil => rfl
  | cons f fs ih => rw [List.foldl_cons, ih, putDataField_insert]; rfl

/-- The table of a dataclass is written with what the tables above have, the nearest one last, and
then with its own fields. -/
theorem named_dataFields (spec : ClassSpec) (w : World) (above : List TypeExpr) :
    (spec.dataFields w above).map (fun g => (g.name, g)) = Table.ofList
      (above.reverse.flatMap (fun t => ((w.dataFieldsOf t).getD []).map fun g => (g.name, g)) ++
        spec.ownFields.map fun fd => (fd.name, dataField w above fd)) := by
  show ((_ ++ spec.ownFields.map (dataField w above)).foldl
    (fun acc f => putDataField f acc) []).map (fun g => (g.name, g)) = _
  rw [dataFields_merge, List.map_append, List.map_map, List.map_flatMap]
  rfl

/-- The data field of the name of an own field is made of that. -/
theorem mem_dataFields {f : DataField} (h : fd ∈ spec.ownFields)
    (hf : f ∈ spec.dataFields w above) (hname : f.name = fd.name) : f = dataField w above fd := by
  have entry : (fd.name, f) ∈ (spec.dataFields w above).map fun g => (g.name, g) :=
    List.mem_map.2 ⟨f, hf, by rw [hname]⟩
  rw [named_dataFields] at entry
  have found := (Table.distinct_nil.merge _).get?_of_mem entry
  rw [Table.get?_merge, Table.lastAt_append, lastAt_own _ h] at found
  exact (Option.some.inj found).symm

/-- Whether a dictionary requires one of its own keys is decided by the mark on its type, or else by
whether the dictionary is total. -/
theorem mem_requiredKeys {total : Bool} (hk : spec.kind = .typedDict total)
    (h : fd ∈ spec.ownFields) :
    fd.name ∈ spec.requiredKeys w ↔ (keyMark fd.type).getD total = true := by
  unfold requiredKeys
  rw [hk]
  dsimp only
  unfold updateRequired
  rw [List.mem_append]
  constructor
  · rintro (hmem | hmem)
    · have absent := (List.mem_filter.1 hmem).2
      simp only [Bool.not_eq_true', List.contains_eq_mem, decide_eq_false_iff_not] at absent
      exact absurd (List.mem_map_of_mem h) absent
    · obtain ⟨f, hf, hname⟩ := List.mem_map.1 hmem
      obtain ⟨hf, hrequired⟩ := List.mem_filter.1 hf
      rwa [ownFields_eq hf h hname] at hrequired
  · exact fun hrequired => .inr (List.mem_map_of_mem (List.mem_filter.2 ⟨h, hrequired⟩))

end ClassSpec

/-- Classes of the kind have a list of fields of their own. -/
def ClassKind.listsFields : ClassKind → Bool
  | .dataclass | .typedDict _ | .namedTuple => true
  | _ => false

namespace World

section Definitions

variable (w earlier : World) (spec : ClassSpec) (i : Nat) (f : FieldDecl)

/-- The name under which a field is shown. -/
def shownName : String := if w.isModel (.declared i) then f.shown.getD f.name else f.name

/-- Whether a value has to be given for a field that a class declares. For a validated model this is
so when it has neither a default nor a factory; for a dataclass when besides nothing else gives it a
value; for a dictionary when the mark on it says so, or else when the dictionary is total; for a
named tuple when it has no default; and for any other class when the class has no value of its
name. -/
def demands : Bool :=
  if w.isModel (.declared i) then !f.hasDefault && !f.hasFactory
  else match spec.kind with
    | .dataclass => !f.hasDefault && !f.hasFactory &&
        (ClassSpec.isAssigned f || !earlier.someHasAttribute (spec.above earlier) f.name)
    | .typedDict total => (ClassSpec.keyMark f.type).getD total
    | .namedTuple => !f.hasDefault
    | .plain | .model | .enumeration _ => !w.hasAttribute (.declared i) f.name

/-- A class makes one of its fields of what it declares: a validated model of what is public and no
class variable, any other class if it lists fields or no class above it does. -/
structure MakesField : Prop where
  own : f ∈ spec.ownFields
  shown : w.isModel (.declared i) = true → ClassSpec.isModelField f = true
  plain : w.isModel (.declared i) = false → spec.kind.listsFields = false →
    w.dataFieldsOf (.declared i) = none ∧ w.isTypedDict (.declared i) = false ∧
      w.namedTupleOf (.declared i) = none

/-- A type that is the class at a position, or a validated model that is filled in from it. -/
def IsClass (cls : TypeExpr) : Prop :=
  cls = .declared i ∨ w.isModel (.declared i) = true ∧ ∃ args, cls = .filled i args

end Definitions

variable {w earlier : World} {spec : ClassSpec} {i : Nat} {fd : FieldDecl} {cls : TypeExpr}
  {own : List ModelField} {f : ModelField}

/-- The fields of a validated model go by those that its class has. -/
theorem modelFieldsOf_isClass {c : ClassDecl} (hc : w.class? i = some c) (h : w.IsClass i cls) :
    (w.modelFieldsOf cls).map ModelField.name = c.modelFields.values.map ModelField.name ∧
      ∀ f ∈ w.modelFieldsOf cls, ∃ m ∈ c.modelFields.values,
        m.name = f.name ∧ m.required = f.required := by
  rcases h with rfl | ⟨_, args, rfl⟩
  · have fields : w.modelFieldsOf (.declared i) = c.modelFields.values := by
      show ((w.declaredLineage (.declared i)).head?.map fun c => c.modelFields.values).getD [] = _
      rw [declaredLineage_cons hc]
      rfl
    rw [fields]
    exact ⟨rfl, fun f hf => ⟨f, hf, rfl, rfl⟩⟩
  · simp only [modelFieldsOf, hc]
    refine ⟨by rw [List.map_map]; rfl, fun f hf => ?_⟩
    obtain ⟨m, hm, rfl⟩ := List.mem_map.1 hf
    exact ⟨m, hm, rfl, rfl⟩

section Demanded

variable (h : w.DeclaredAs earlier spec i) (hf : f ∈ own) (hname : f.name = w.shownName i fd)

include h hf hname

/-- A field of a validated model is required unless it has a default or a factory. -/
theorem required_of_model (hm : w.isModel (.declared i) = true) (hcls : w.IsClass i cls)
    (hown : own = w.modelFieldsOf cls) (apart : (own.map ModelField.name).Nodup)
    (hfd : w.MakesField spec i fd) : f.required = (!fd.hasDefault && !fd.hasFactory) := by
  obtain ⟨nested, hc⟩ := h
  subst hown
  obtain ⟨names, fields⟩ := modelFieldsOf_isClass hc hcls
  obtain ⟨m, hmem, hmname, hmrequired⟩ := fields f hf
  rw [names] at apart
  have tables : ∀ m ∈ Table.values (spec.declare earlier).modelFields,
      (spec.declare earlier).modelFields = spec.modelFields earlier (spec.above earlier) := by
    intro m hm
    show (if spec.kind == .model || (spec.above earlier).any earlier.isModel then
      spec.modelFields earlier (spec.above earlier) else []) = _
    by_cases hk : (spec.kind == .model || (spec.above earlier).any earlier.isModel) = true
    · rw [if_pos hk]
    · have empty : (spec.declare earlier).modelFields = [] := if_neg hk
      rw [empty] at hm
      cases hm
  have made : ClassSpec.modelField earlier fd ∈ (spec.declare earlier).modelFields.values := by
    rw [tables m hmem]
    exact List.mem_map_of_mem (ClassSpec.mem_modelFields hfd.own (hfd.shown hm))
  have shown : m.name = (ClassSpec.modelField earlier fd).name := by
    rw [hmname, hname, shownName, if_pos hm]
    rfl
  obtain rfl := List.inj_on_of_nodup_map apart hmem made shown
  exact hmrequired.symm

end Demanded

/-- A class that stands alone is no dataclass. -/
theorem DeclaredAs.dataFieldsOf_alone (h : w.DeclaredAs earlier spec i)
    (alone : spec.kind.standsAlone = true) : w.dataFieldsOf (.declared i) = none := by
  have other : spec.kind ≠ .dataclass := by
    intro hk
    rw [hk] at alone
    cases alone
  obtain ⟨nested, _, line⟩ := h.declaredLineage_alone alone
  unfold dataFieldsOf
  rw [line]
  simp [ClassSpec.declare, other]

section Annotated

variable {hints : Table TypeExpr} (h : w.DeclaredAs earlier spec i)
  (hf : f ∈ w.annotatedFields (.declared i) hints) (hname : f.name = fd.name)
  (hfd : fd ∈ spec.ownFields)

include h hf hname hfd

theorem required_of_dataclass (hk : spec.kind = .dataclass) : f.required =
    (!fd.hasDefault && !fd.hasFactory &&
      (ClassSpec.isAssigned fd || !earlier.someHasAttribute (spec.above earlier) fd.name)) := by
  obtain ⟨nested, hc⟩ := h
  have table : (spec.declare earlier).dataFields =
      some (spec.dataFields earlier (spec.above earlier)) := by
    show (if spec.kind == .dataclass then _ else none) = _
    rw [hk]
    rfl
  have fields : w.dataFieldsOf (.declared i) =
      some (spec.dataFields earlier (spec.above earlier)) := by
    unfold dataFieldsOf
    rw [declaredLineage_cons hc]
    exact List.findSome?_cons_of_isSome (by rw [table]; rfl) |>.trans table
  unfold annotatedFields at hf
  rw [fields] at hf
  obtain ⟨d, hd, hmade⟩ := List.mem_filterMap.1 hf
  obtain ⟨_, hmade⟩ := Option.ite_none_left_eq_some.1 hmade
  obtain rfl := Option.some.inj hmade
  rw [ClassSpec.mem_dataFields hfd hd hname]
  rfl

theorem required_of_typedDict {total : Bool} (hk : spec.kind = .typedDict total) :
    f.required = (ClassSpec.keyMark fd.type).getD total := by
  have alone : spec.kind.standsAlone = true := by rw [hk]; rfl
  obtain ⟨nested, _, line⟩ := h.declaredLineage_alone alone
  have dictionary : w.isTypedDict (.declared i) = true := by
    unfold isTypedDict
    rw [line]
    simp [ClassSpec.declare, hk]
  have keys : w.requiredKeysOf (.declared i) = spec.requiredKeys earlier := by
    unfold requiredKeysOf
    rw [line]
    rfl
  unfold annotatedFields at hf
  rw [h.dataFieldsOf_alone alone, dictionary] at hf
  obtain ⟨e, he, rfl⟩ := List.mem_map.1 hf
  have required := ClassSpec.mem_requiredKeys (w := earlier) hk hfd
  rw [← keys, ← hname, ← List.contains_iff_mem] at required
  exact Bool.eq_iff_iff.2 required

theorem required_of_namedTuple (hk : spec.kind = .namedTuple) : f.required = !fd.hasDefault := by
  have alone : spec.kind.standsAlone = true := by rw [hk]; rfl
  obtain ⟨nested, _, line⟩ := h.declaredLineage_alone alone
  have noDictionary : w.isTypedDict (.declared i) = false := by
    unfold isTypedDict
    rw [line]
    simp [ClassSpec.declare, hk]
  have tuple : w.namedTupleOf (.declared i) = some { spec.declare earlier with nested } := by
    unfold namedTupleOf
    rw [line]
    simp [ClassSpec.declare, hk]
  unfold annotatedFields at hf
  rw [h.dataFieldsOf_alone alone, noDictionary, tuple] at hf
  obtain ⟨fd', hfd', rfl⟩ := List.mem_map.1 hf
  rw [ClassSpec.ownFields_eq hfd' hfd hname]

end Annotated

/-- Other classes require the fields that they have no value for. -/
theorem required_of_plain {hints : Table TypeExpr} (hf : f ∈ w.annotatedFields cls hints)
    (table : w.dataFieldsOf cls = none) (dictionary : w.isTypedDict cls = false)
    (tuple : w.namedTupleOf cls = none) : f.required = !w.hasAttribute cls f.name := by
  unfold annotatedFields at hf
  rw [table, dictionary, tuple] at hf
  obtain ⟨e, _, hmade⟩ := List.mem_filterMap.1 hf
  obtain ⟨_, hmade⟩ := Option.ite_none_left_eq_some.1 hmade
  obtain rfl := Option.some.inj hmade
  rfl

theorem IsClass.isModel_eq (h : w.IsClass i cls) : w.isModel cls = w.isModel (.declared i) := by
  rcases h with rfl | ⟨_, args, rfl⟩
  · rfl
  · unfold isModel
    rw [declaredLineage_filled]

/-- Whether a field of a class is required is what its declaration demands. -/
theorem required_eq_demands (h : w.DeclaredAs earlier spec i) (hcls : w.IsClass i cls)
    (hown : w.classFields cls = .ok own) (apart : (own.map ModelField.name).Nodup)
    (hfd : w.MakesField spec i fd) (hf : f ∈ own) (hname : f.name = w.shownName i fd) :
    f.required = w.demands earlier spec i fd := by
  unfold classFields at hown
  unfold demands
  by_cases hm : w.isModel (.declared i) = true
  · rw [hcls.isModel_eq, if_pos hm] at hown
    rw [if_pos hm]
    exact required_of_model h hf hname hm hcls (Except.ok.inj hown).symm apart hfd
  · rw [hcls.isModel_eq, if_neg hm] at hown
    rw [if_neg hm]
    obtain rfl : cls = .declared i := hcls.resolve_right fun filled => hm filled.1
    rw [shownName, if_neg hm] at hname
    cases hhints : w.annotationsOf (.declared i) with
    | error fault => rw [hhints] at hown; cases hown
    | ok hints =>
      rw [hhints] at hown
      obtain rfl := Except.ok.inj hown
      have others := hfd.plain (Bool.eq_false_iff.2 hm)
      cases hk : spec.kind with
      | dataclass => exact required_of_dataclass h hf hname hfd.own hk
      | typedDict total => exact required_of_typedDict h hf hname hfd.own hk
      | namedTuple => exact required_of_namedTuple h hf hname hfd.own hk
      | plain | model | enumeration =>
        obtain ⟨table, dictionary, tuple⟩ := others (by rw [hk]; rfl)
        rw [required_of_plain hf table dictionary tuple, hname]

/-- The same holds of the fields of a type that gets them from the class, arguments or not. -/
theorem fieldsOf_demands {t : TypeExpr} {fields : List ModelField}
    (h : w.DeclaredAs earlier spec i) (hcls : fieldClass? t = some cls) (hclass : w.IsClass i cls)
    (hfields : w.fieldsOf t = .ok fields) (apart : (fields.map ModelField.name).Nodup)
    (hfd : w.MakesField spec i fd) (hf : f ∈ fields) (hname : f.name = w.shownName i fd) :
    f.required = w.demands earlier spec i fd := by
  obtain ⟨cls', own, hcls', hown, _, rfl⟩ := fieldsOf_ok_iff.1 hfields
  obtain rfl := Option.some.inj (hcls.symm.trans hcls')
  obtain ⟨f', hf', rfl⟩ := List.mem_map.1 hf
  rw [List.map_map] at apart
  exact required_eq_demands (f := f') h hclass hown apart hfd hf' hname

end World

end ApiCompiler
