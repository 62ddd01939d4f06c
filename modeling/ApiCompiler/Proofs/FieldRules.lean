import ApiCompiler.Proofs.Hints
import ApiCompiler.Proofs.TakenFields

/-!
# The rule for each field

Which rule the fields of a class go by depends on how they are listed: a validated model has a table
of its own, other classes have the table of the nearest dataclass, the keys of a dictionary, the
items of the nearest named tuple, or their annotations. Each field is required exactly when its rule
demands a value for it, be it declared by the class itself or taken over.
-/

set_option autoImplicit false

namespace ApiCompiler

theorem ClassSpec.distinct_modelFields (spec : ClassSpec) (w : World)
    (above : List TypeExpr) : (spec.modelFields w above).Distinct :=
  (List.filter_sublist.map _).nodup
    ((Table.Distinct.merge (Table.distinct_nil.foldl_merge _ _) _).merge _)

namespace World

/-- Under which name a class shows a field of a declared name, and whether it demands a value for
it. -/
inductive FieldRule (w : World) (i : Nat) : String → String → Bool → Prop where
  | model {x shown : String} {b : Bool} (validated : w.isModel (.declared i) = true)
      (rule : w.ModelRule i x shown b) : FieldRule w i x shown b
  | data {x : String} {k : Nat} {b : Bool} (other : w.isModel (.declared i) = false)
      (nearest : w.dataclass? (.declared i) = some k) (rule : w.DataRule k x b) :
      FieldRule w i x x b
  | key {x : String} {b : Bool} (other : w.isModel (.declared i) = false)
      (noTable : w.dataFieldsOf (.declared i) = none)
      (dictionary : w.isTypedDict (.declared i) = true) (rule : w.KeyRule i x b) :
      FieldRule w i x x b
  /-- An item of the nearest named tuple: it has no default. -/
  | item {earlier : World} {spec : ClassSpec} {fd : FieldDecl} {nested : Table Nat}
      (other : w.isModel (.declared i) = false) (noTable : w.dataFieldsOf (.declared i) = none)
      (noDictionary : w.isTypedDict (.declared i) = false)
      (nearest : w.namedTupleOf (.declared i) = some { spec.declare earlier with nested })
      (mem : fd ∈ spec.ownFields) : FieldRule w i fd.name fd.name (!fd.hasDefault)
  /-- A field of any other class: the class has no value of its name. -/
  | value {x : String} (other : w.isModel (.declared i) = false)
      (noTable : w.dataFieldsOf (.declared i) = none)
      (noDictionary : w.isTypedDict (.declared i) = false)
      (noTuple : w.namedTupleOf (.declared i) = none) :
      FieldRule w i x x (!w.hasAttribute (.declared i) x)

section Fields

variable {w : World} {i : Nat} {cls : TypeExpr} {own : List ModelField} {f : ModelField} {b : Bool}
  {hints : Table TypeExpr}

theorem Grown.distinct_modelFields (hw : w.Grown) {c : ClassDecl} (hc : w.class? i = some c) :
    c.modelFields.Distinct := by
  obtain ⟨earlier, spec, _, nested, hc'⟩ := hw.eachDeclared i c hc
  obtain rfl := Option.some.inj (hc.symm.trans hc')
  show Table.Distinct (if _ then spec.modelFields earlier (spec.above earlier) else [])
  split
  · exact spec.distinct_modelFields earlier _
  · exact Table.distinct_nil

/-- The fields of a validated model go by their rule. -/
theorem modelRule_iff (hw : w.Grown) {c : ClassDecl} (hc : w.class? i = some c)
    (hcls : w.IsClass i cls) (apart : ((w.modelFieldsOf cls).map ModelField.name).Nodup)
    (hf : f ∈ w.modelFieldsOf cls) : (∃ x, w.ModelRule i x f.name b) ↔ f.required = b := by
  have distinct := hw.distinct_modelFields hc
  obtain ⟨names, fields⟩ := modelFieldsOf_isClass hc hcls
  obtain ⟨m, hm, hname, hrequired⟩ := fields f hf
  rw [names] at apart
  constructor
  · rintro ⟨x, rule⟩
    obtain ⟨m', found, entry⟩ := Option.map_eq_some_iff.1 rule.modelField
    rw [hc, Option.bind_some, distinct.lastAt] at found
    obtain ⟨shown, rfl⟩ := Prod.mk.inj entry
    have hm' : m' ∈ c.modelFields.values := List.mem_map_of_mem (Table.mem_of_get? found)
    rw [← hrequired, List.inj_on_of_nodup_map apart hm hm' (hname.trans shown.symm)]
  · rintro rfl
    obtain ⟨⟨x, m⟩, entry, rfl⟩ := List.mem_map.1 hm
    refine ⟨x, .of_modelField hw ?_⟩
    unfold modelField?
    rw [hc, Option.bind_some, distinct.lastAt, distinct.get?_of_mem entry, ← hname, ← hrequired]
    rfl

theorem Grown.named_dataFields (hw : w.Grown) {fs : List DataField}
    (h : (w.class? i).bind ClassDecl.dataFields = some fs) :
    Table.Distinct (fs.map fun f => (f.name, f)) := by
  obtain ⟨c, hc, table⟩ := Option.bind_eq_some_iff.1 h
  obtain ⟨earlier, spec, _, nested, hc'⟩ := hw.eachDeclared i c hc
  obtain rfl := Option.some.inj (hc.symm.trans hc')
  have table : (if spec.kind == .dataclass then
    some (spec.dataFields earlier (spec.above earlier)) else none) = some fs := table
  split at table
  · obtain rfl := Option.some.inj table
    rw [ClassSpec.named_dataFields]
    exact Table.distinct_ofList _
  · cases table

/-- So do the fields of a class from the table of its nearest dataclass. -/
theorem dataRule_iff (hw : w.Grown) {k : Nat} (nearest : w.dataclass? cls = some k)
    (hf : f ∈ w.annotatedFields cls hints) : w.DataRule k f.name b ↔ f.required = b := by
  obtain ⟨fs, table⟩ := exists_dataFields nearest
  have found := dataFieldsOf_eq w cls
  rw [nearest, Option.bind_some, table] at found
  unfold annotatedFields at hf
  rw [found] at hf
  obtain ⟨d, hd, hmade⟩ := List.mem_filterMap.1 hf
  obtain ⟨_, hmade⟩ := Option.ite_none_left_eq_some.1 hmade
  obtain rfl := Option.some.inj hmade
  have distinct := hw.named_dataFields table
  have field : w.dataField? d.name k = some d := by
    unfold dataField?
    rw [table, Option.bind_some, distinct.lastAt]
    exact distinct.get?_of_mem (List.mem_map_of_mem hd)
  constructor
  · intro rule
    have required := rule.dataField
    rw [field] at required
    exact Option.some.inj required
  · rintro rfl
    exact .of_dataField hw field

/-- So do the keys of a dictionary. -/
theorem keyRule_iff (hw : w.Grown) {c : ClassDecl} (hc : w.class? i = some c)
    (noTable : w.dataFieldsOf (.declared i) = none)
    (dictionary : w.isTypedDict (.declared i) = true)
    (hhints : w.annotationsOf (.declared i) = .ok hints)
    (hf : f ∈ w.annotatedFields (.declared i) hints) :
    w.KeyRule i f.name b ↔ f.required = b := by
  unfold annotatedFields at hf
  rw [noTable, dictionary] at hf
  obtain ⟨e, he, rfl⟩ := List.mem_map.1 hf
  have keys : (w.requiredKeysOf (.declared i)).contains e.1 = w.requiresKey e.1 i := by
    unfold requiredKeysOf requiresKey
    rw [declaredLineage_cons hc, hc]
    rfl
  show w.KeyRule i e.1 b ↔ (w.requiredKeysOf (.declared i)).contains e.1 = b
  rw [keys]
  refine ⟨KeyRule.requiresKey, ?_⟩
  rintro rfl
  obtain ⟨earlier, spec, _, declared⟩ := hw.eachDeclared i c hc
  by_cases kind : ∃ total, spec.kind = .typedDict total
  · obtain ⟨total, kind⟩ := kind
    have alone : spec.kind.standsAlone = true := by rw [kind]; rfl
    obtain ⟨nested, hc', line⟩ := declared.declaredLineage_alone alone
    have shows := (annotationsOf_distinct hhints).get?_of_mem he
    obtain ⟨c', hfind, _⟩ := (annotationsOf_get? hhints e.1 e.2).1 shows
    rw [line] at hfind
    have has := List.find?_some hfind
    obtain rfl := List.mem_singleton.1 (List.mem_of_find?_eq_some hfind)
    refine .of_hasKey hw ?_
    unfold hasKey
    rw [hc', Option.any_some, Table.has_eq_isSome_lastAt]
    exact has
  · rw [declared.requiresKey_other (not_exists.1 kind)]
    exact .noDictionary declared (not_exists.1 kind)

/-- A class with fields is declared. -/
theorem exists_class (hcls : w.IsClass i cls) (hown : w.classFields cls = .ok own) (hf : f ∈ own) :
    ∃ c, w.class? i = some c := by
  cases hc : w.class? i with
  | some c => exact ⟨c, rfl⟩
  | none =>
    have line : w.declaredLineage (.declared i) = [] := by
      unfold declaredLineage
      simp [lineage, hc]
    have none : w.declaredLineage cls = [] := by
      rcases hcls with rfl | ⟨_, args, rfl⟩
      · exact line
      · exact (declaredLineage_filled ..).trans line
    obtain rfl := Except.ok.inj ((classFields_undeclared none).symm.trans hown)
    cases hf

/-- The fields that a class is given for its annotations go by their rules. -/
theorem fieldRule_annotated (hw : w.Grown) {c : ClassDecl} (hc : w.class? i = some c)
    (hm : w.isModel (.declared i) = false) (hhints : w.annotationsOf (.declared i) = .ok hints)
    (hf : f ∈ w.annotatedFields (.declared i) hints) :
    (∃ x, w.FieldRule i x f.name b) ↔ f.required = b := by
  cases table : w.dataFieldsOf (.declared i) with
  | some fs =>
    have found := dataFieldsOf_eq w (.declared i)
    rw [table] at found
    obtain ⟨k, nearest, _⟩ := Option.bind_eq_some_iff.1 found.symm
    rw [← dataRule_iff hw nearest hf]
    refine ⟨fun ⟨x, rule⟩ => ?_, fun rule => ⟨_, .data hm nearest rule⟩⟩
    generalize f.name = shown at rule ⊢
    cases rule with
    | model validated => cases hm.symm.trans validated
    | data _ nearest' rule =>
      obtain rfl := Option.some.inj (nearest.symm.trans nearest')
      exact rule
    | key _ noTable | item _ noTable | value _ noTable => cases table.symm.trans noTable
  | none =>
    have noTable {k : Nat} (nearest : w.dataclass? (.declared i) = some k) : False := by
      obtain ⟨fs, has⟩ := exists_dataFields nearest
      rw [dataFieldsOf_eq, nearest, Option.bind_some, has] at table
      cases table
    cases dictionary : w.isTypedDict (.declared i) with
    | true =>
      rw [← keyRule_iff hw hc table dictionary hhints hf]
      refine ⟨fun ⟨x, rule⟩ => ?_, fun rule => ⟨_, .key hm table dictionary rule⟩⟩
      generalize f.name = shown at rule ⊢
      cases rule with
      | model validated => cases hm.symm.trans validated
      | data _ nearest => exact (noTable nearest).elim
      | key _ _ _ rule => exact rule
      | item _ _ noDictionary | value _ _ noDictionary => cases dictionary.symm.trans noDictionary
    | false =>
      cases tuple : w.namedTupleOf (.declared i) with
      | some c' =>
        obtain ⟨u, _, hu⟩ := List.mem_filterMap.1 (List.mem_of_find?_eq_some tuple)
        obtain ⟨j, hc'⟩ : ∃ j, w.class? j = some c' := by
          cases u with
          | declared j => exact ⟨j, hu⟩
          | _ => cases hu
        obtain ⟨earlier, spec, _, nested, declared⟩ := hw.eachDeclared j c' hc'
        obtain rfl := Option.some.inj (hc'.symm.trans declared)
        unfold annotatedFields at hf
        rw [table, dictionary, tuple] at hf
        obtain ⟨fd, mem, rfl⟩ := List.mem_map.1 hf
        constructor
        · rintro ⟨x, rule⟩
          generalize hname : (_ : ModelField).name = shown at rule
          cases rule with
          | model validated => cases hm.symm.trans validated
          | data _ nearest => exact (noTable nearest).elim
          | key _ _ has => cases dictionary.symm.trans has
          | @item earlier' spec' fd' nested' _ _ _ nearest mem' =>
            have fields : spec.ownFields = spec'.ownFields :=
              congrArg ClassDecl.fields (Option.some.inj (tuple.symm.trans nearest))
            rw [← fields] at mem'
            rw [ClassSpec.ownFields_eq mem mem' hname]
          | value _ _ _ noTuple => cases tuple.symm.trans noTuple
        · rintro rfl
          exact ⟨_, .item hm table dictionary tuple mem⟩
      | none =>
        rw [required_of_plain hf table dictionary tuple]
        generalize f.name = shown
        constructor
        · rintro ⟨x, rule⟩
          cases rule with
          | model validated => cases hm.symm.trans validated
          | data _ nearest => exact (noTable nearest).elim
          | key _ _ has => cases dictionary.symm.trans has
          | item _ _ _ nearest => cases tuple.symm.trans nearest
          | value => rfl
        · rintro rfl
          exact ⟨_, .value hm table dictionary tuple⟩

/-- Each field of a class goes by its rule. -/
theorem fieldRule_iff (hw : w.Grown) (hcls : w.IsClass i cls) (hown : w.classFields cls = .ok own)
    (apart : (own.map ModelField.name).Nodup) (hf : f ∈ own) :
    (∃ x, w.FieldRule i x f.name b) ↔ f.required = b := by
  obtain ⟨c, hc⟩ := exists_class hcls hown hf
  unfold classFields at hown
  rw [hcls.isModel_eq] at hown
  cases hm : w.isModel (.declared i) with
  | true =>
    rw [hm, if_pos rfl] at hown
    obtain rfl := Except.ok.inj hown
    rw [← modelRule_iff hw hc hcls apart hf]
    refine exists_congr fun x => ⟨fun rule => ?_, .model hm⟩
    generalize f.name = shown at rule ⊢
    cases rule with
    | model _ rule => exact rule
    | data other | key other | item other | value other => cases hm.symm.trans other
  | false =>
    rw [hm, if_neg Bool.false_ne_true] at hown
    obtain rfl : cls = .declared i :=
      hcls.resolve_right fun filled => by cases hm.symm.trans filled.1
    cases hhints : w.annotationsOf (.declared i) with
    | error fault => rw [hhints] at hown; cases hown
    | ok hints =>
      rw [hhints] at hown
      obtain rfl := Except.ok.inj hown
      exact fieldRule_annotated hw hc hm hhints hf

/-- The same holds of the fields of a type that gets them from the class, arguments or not. -/
theorem fieldsOf_rule {t : TypeExpr} {fields : List ModelField} (hw : w.Grown)
    (hcls : fieldClass? t = some cls) (hclass : w.IsClass i cls) (hfields : w.fieldsOf t = .ok fields)
    (apart : (fields.map ModelField.name).Nodup) (hf : f ∈ fields) :
    (∃ x, w.FieldRule i x f.name b) ↔ f.required = b := by
  obtain ⟨cls', own, hcls', hown, _, rfl⟩ := fieldsOf_ok_iff.1 hfields
  obtain rfl := Option.some.inj (hcls.symm.trans hcls')
  obtain ⟨f', hf', rfl⟩ := List.mem_map.1 hf
  rw [List.map_map] at apart
  exact fieldRule_iff (f := f') hw hclass hown apart hf'

end Fields

end World

end ApiCompiler

