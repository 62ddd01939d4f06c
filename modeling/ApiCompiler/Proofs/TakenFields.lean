import ApiCompiler.Proofs.Demands
import ApiCompiler.Proofs.FirstOccurrences

/-!
# Fields that are taken over

A class also has fields that only classes above it declare. A dataclass takes over those of the
tables above, the nearest class first; a validated model those that its bases pass on, the first
base first, and then those that other classes above declare; a dictionary the keys of its bases, the
last base first. Whether a value has to be given for such a field is what the class says that it is
taken over from, and in the end what its declaration demands there.
-/

set_option autoImplicit false

namespace ApiCompiler

section Lists

variable {α β γ : Type}

/-- The first value that a function has on a list is the one at the first member with a value. -/
theorem findSome?_eq_bind {f : α → Option β} {p : α → Bool} (h : ∀ a, (f a).isSome = p a)
    (l : List α) : l.findSome? f = (l.find? p).bind f := by
  induction l with
  | nil => rfl
  | cons a l ih =>
    rw [List.findSome?_cons, List.find?_cons, ← h a]
    cases ha : f a with
    | none => exact ih
    | some b => exact ha.symm

theorem findSome?_filterMap (f : β → Option γ) (g : α → Option β) (l : List α) :
    (l.filterMap g).findSome? f = l.findSome? fun a => (g a).bind f := by
  induction l with
  | nil => rfl
  | cons a l ih =>
    rw [List.findSome?_cons]
    cases ha : g a with
    | none => rw [List.filterMap_cons_none ha, ih]; rfl
    | some b => rw [List.filterMap_cons_some ha, List.findSome?_cons, ih]; rfl

end Lists

/-- The position of a declared class, filled in or not. -/
def TypeExpr.position? : TypeExpr → Option Nat
  | .declared i | .filled i _ => some i
  | _ => none

namespace ClassSpec

section Definitions

variable (spec : ClassSpec) (w : World)

/-- The class is a validated model, or below one. -/
def isValidated : Bool := spec.kind == .model || (spec.above w).any w.isModel

/-- The own names that are class variables. -/
def classVars : List String :=
  (spec.ownFields.filter fun f => World.isClassVar f.type).map FieldDecl.name

/-- A validated model makes nothing of a name itself, neither a field nor a class variable. -/
def Leaves (x : String) : Prop :=
  ∀ fd ∈ spec.ownFields, fd.name = x → isModelField fd = false ∧ World.isClassVar fd.type = false

/-- The positions of the declared bases. -/
def basePositions : List Nat :=
  (spec.bases.filterMap World.baseClass?).filterMap TypeExpr.position?

end Definitions

end ClassSpec

namespace World

section Definitions

variable (w : World) (x : String)

/-- The nearest dataclass of a class. -/
def dataclass? (t : TypeExpr) : Option Nat :=
  (w.lineage t).findSome? fun
    | .declared i => if (w.class? i).any (·.dataFields.isSome) then some i else none
    | _ => none

/-- The table of the nearest dataclass of a class has a field of a name. -/
def hasDataField (t : TypeExpr) : Bool := ((w.dataFieldsOf t).getD []).any (·.name == x)

/-- A class declares a field that a validated model below it can take over. -/
def offersField : TypeExpr → Bool
  | .declared i => (w.class? i).any (·.fields.any fun f => ClassSpec.isModelField f && f.name == x)
  | _ => false

/-- A dictionary has a key. -/
def hasKey (i : Nat) : Bool := (w.class? i).any (·.annotations.has x)

/-- A class requires a key. -/
def requiresKey (i : Nat) : Bool := (w.class? i).any (·.requiredKeys.contains x)

/-- The field of a name in the table of a dataclass. -/
def dataField? (i : Nat) : Option DataField :=
  ((w.class? i).bind ClassDecl.dataFields).bind fun fs =>
    Table.lastAt (fs.map fun f => (f.name, f)) x

/-- The field of a declared name of a validated model: the name under which it is shown, and whether
it is required. -/
def modelField? (i : Nat) : Option (String × Bool) :=
  ((w.class? i).bind fun c => Table.lastAt c.modelFields x).map fun m => (m.name, m.required)

end Definitions

/-- The fields that a class declares for validated models below it. -/
def offers (w : World) (c : ClassDecl) : Table ModelField :=
  (c.fields.filter ClassSpec.isModelField).map fun f => (f.name, ClassSpec.modelField w f)

def offered (w : World) : TypeExpr → Table ModelField
  | .declared i => ((w.class? i).map w.offers).getD []
  | _ => []

/-- Whether a dataclass demands a value for a field of its table. -/
inductive DataRule : World → Nat → String → Bool → Prop where
  /-- A field of its own: neither a default nor a factory nor anything else gives it a value. -/
  | own {w earlier : World} {spec : ClassSpec} {i : Nat} {fd : FieldDecl}
      (declared : w.DeclaredAs earlier spec i) (kind : spec.kind = .dataclass)
      (mem : fd ∈ spec.ownFields) :
      DataRule w i fd.name (!fd.hasDefault && !fd.hasFactory &&
        (ClassSpec.isAssigned fd || !earlier.someHasAttribute (spec.above earlier) fd.name))
  /-- Another field: as the nearest class above has it. -/
  | takenOver {w earlier : World} {spec : ClassSpec} {i k : Nat} {x : String} {t : TypeExpr}
      {b : Bool} (declared : w.DeclaredAs earlier spec i) (kind : spec.kind = .dataclass)
      (other : x ∉ spec.ownFields.map FieldDecl.name)
      (nearest : (spec.above earlier).find? (earlier.hasDataField x) = some t)
      (table : earlier.dataclass? t = some k) (rule : DataRule earlier k x b) : DataRule w i x b

/-- Under which name a validated model shows a field, and whether it demands a value for it. -/
inductive ModelRule : World → Nat → String → String → Bool → Prop where
  /-- A field of its own: it has neither a default nor a factory. -/
  | own {w earlier : World} {spec : ClassSpec} {i : Nat} {fd : FieldDecl}
      (declared : w.DeclaredAs earlier spec i) (validated : spec.isValidated earlier = true)
      (mem : fd ∈ spec.ownFields) (field : ClassSpec.isModelField fd = true) :
      ModelRule w i fd.name (fd.shown.getD fd.name) (!fd.hasDefault && !fd.hasFactory)
  /-- Another field: as the first base has it that passes it on. -/
  | passedOn {w earlier : World} {spec : ClassSpec} {i j : Nat} {x shown : String} {base : TypeExpr}
      {b : Bool} (declared : w.DeclaredAs earlier spec i)
      (validated : spec.isValidated earlier = true) (other : spec.Leaves x)
      (first : spec.bases.find? (fun base => (ClassSpec.passedOn earlier base).has x) = some base)
      (position : base.position? = some j) (rule : ModelRule earlier j x shown b) :
      ModelRule w i x shown b
  /-- A field that no base passes on: as the nearest class above declares it. -/
  | offered {w earlier earlier' : World} {spec spec' : ClassSpec} {i j : Nat} {fd : FieldDecl}
      (declared : w.DeclaredAs earlier spec i) (validated : spec.isValidated earlier = true)
      (other : spec.Leaves fd.name)
      (unpassed : ∀ base ∈ spec.bases, (ClassSpec.passedOn earlier base).has fd.name = false)
      (nearest : (spec.above earlier).find? (earlier.offersField fd.name) = some (.declared j))
      (above : earlier.DeclaredAs earlier' spec' j) (mem : fd ∈ spec'.ownFields)
      (field : ClassSpec.isModelField fd = true) :
      ModelRule w i fd.name (fd.shown.getD fd.name) (!fd.hasDefault && !fd.hasFactory)

/-- Whether a class demands a key. -/
inductive KeyRule : World → Nat → String → Bool → Prop where
  /-- A key of its own: by the mark on it, or else by whether the dictionary is total. -/
  | own {w earlier : World} {spec : ClassSpec} {i : Nat} {fd : FieldDecl} {total : Bool}
      (declared : w.DeclaredAs earlier spec i) (kind : spec.kind = .typedDict total)
      (mem : fd ∈ spec.ownFields) : KeyRule w i fd.name ((ClassSpec.keyMark fd.type).getD total)
  /-- Another key: as the last base has it. -/
  | takenOver {w earlier : World} {spec : ClassSpec} {i j : Nat} {x : String} {total b : Bool}
      (declared : w.DeclaredAs earlier spec i) (kind : spec.kind = .typedDict total)
      (grown : earlier.Grown) (other : x ∉ spec.ownFields.map FieldDecl.name)
      (last : spec.basePositions.reverse.find? (earlier.hasKey x) = some j)
      (rule : KeyRule earlier j x b) : KeyRule w i x b
  /-- Classes that are no dictionaries demand no keys. -/
  | noDictionary {w earlier : World} {spec : ClassSpec} {i : Nat} {x : String}
      (declared : w.DeclaredAs earlier spec i) (kind : ∀ total, spec.kind ≠ .typedDict total) :
      KeyRule w i x false

/-! ### Dataclasses -/

section Data

variable {w earlier : World} {spec : ClassSpec} {i : Nat} {x : String} {b : Bool} {t : TypeExpr}

theorem dataFieldsOf_eq (w : World) (t : TypeExpr) :
    w.dataFieldsOf t = (w.dataclass? t).bind fun k => (w.class? k).bind ClassDecl.dataFields := by
  unfold dataFieldsOf declaredLineage dataclass?
  rw [findSome?_filterMap]
  induction w.lineage t with
  | nil => rfl
  | cons u line ih =>
    rw [List.findSome?_cons, List.findSome?_cons, ih]
    cases u with
    | declared j =>
      cases hc : w.class? j with
      | none => simp [hc]
      | some c => cases hfs : c.dataFields <;> simp [hc, hfs]
    | _ => rfl

/-- A dataclass has a table. -/
theorem exists_dataFields {k : Nat} (h : w.dataclass? t = some k) :
    ∃ fs, (w.class? k).bind ClassDecl.dataFields = some fs := by
  obtain ⟨u, _, h⟩ := List.exists_of_findSome?_eq_some h
  cases u with
  | declared j =>
    obtain ⟨has, h⟩ := Option.ite_none_right_eq_some.1 h
    obtain rfl := Option.some.inj h
    obtain ⟨c, hc, has⟩ := (Option.any_eq_true _ _).1 has
    obtain ⟨fs, hfs⟩ := Option.isSome_iff_exists.1 has
    exact ⟨fs, Option.bind_eq_some_iff.2 ⟨c, hc, hfs⟩⟩
  | _ => cases h

/-- What the table of the nearest dataclass has under a name. -/
theorem isSome_dataField (w : World) (x : String) (t : TypeExpr) :
    ((w.dataclass? t).bind fun k => w.dataField? x k).isSome = w.hasDataField x t := by
  unfold hasDataField dataField?
  rw [dataFieldsOf_eq]
  cases w.dataclass? t with
  | none => rfl
  | some k =>
    cases h : (w.class? k).bind ClassDecl.dataFields with
    | none => simp [h]
    | some fs =>
      simp only [Option.bind_some, h, Option.getD_some, Table.isSome_lastAt, List.any_map]
      rfl

/-- A dataclass has its own fields and, under other names, those of the nearest tables above. -/
theorem DeclaredAs.dataField_eq (declared : w.DeclaredAs earlier spec i)
    (kind : spec.kind = .dataclass) (x : String) : w.dataField? x i =
      (Table.lastAt (spec.ownFields.map fun fd =>
        (fd.name, ClassSpec.dataField earlier (spec.above earlier) fd)) x).or
        (((spec.above earlier).find? (earlier.hasDataField x)).bind fun t =>
          (earlier.dataclass? t).bind fun k => earlier.dataField? x k) := by
  obtain ⟨nested, hc⟩ := declared
  have table : (spec.declare earlier).dataFields =
      some (spec.dataFields earlier (spec.above earlier)) := by
    show (if spec.kind == .dataclass then _ else none) = _
    rw [kind]
    rfl
  have field : w.dataField? x i = Table.lastAt
      ((spec.dataFields earlier (spec.above earlier)).map fun f => (f.name, f)) x := by
    unfold dataField?
    rw [hc, Option.bind_some]
    exact congrArg (fun fs => Option.bind fs _) table
  have above (t : TypeExpr) : Table.lastAt
      (((earlier.dataFieldsOf t).getD []).map fun f => (f.name, f)) x =
        (earlier.dataclass? t).bind fun k => earlier.dataField? x k := by
    rw [dataFieldsOf_eq]
    unfold dataField?
    cases earlier.dataclass? t with
    | none => rfl
    | some k =>
      simp only [Option.bind_some]
      cases (earlier.class? k).bind ClassDecl.dataFields <;> rfl
  rw [field, ← findSome?_eq_bind (isSome_dataField earlier x), ClassSpec.named_dataFields,
    (Table.distinct_ofList _).lastAt, Table.get?_ofList, Table.lastAt_append,
    Table.lastAt_flatMap_reverse]
  simp only [above]

theorem DataRule.dataField (rule : w.DataRule i x b) :
    (w.dataField? x i).map DataField.required = some b := by
  induction rule with
  | @own w earlier spec i fd declared kind mem =>
    rw [declared.dataField_eq kind, ClassSpec.lastAt_own _ mem]
    rfl
  | takenOver declared kind other nearest table rule ih =>
    rw [declared.dataField_eq kind, ClassSpec.lastAt_other _ other, nearest, Option.bind_some,
      table]
    exact ih

theorem DataRule.of_dataField (hw : w.Grown) {f : DataField} (h : w.dataField? x i = some f) :
    w.DataRule i x f.required := by
  induction hw generalizing i x f with
  | @intro w earlier spec grown declared ih =>
    obtain ⟨fs, table, _⟩ := Option.bind_eq_some_iff.1 h
    obtain ⟨c, hc, table⟩ := Option.bind_eq_some_iff.1 table
    have declared := declared i c hc
    have kind : (spec i).kind = .dataclass := by
      obtain ⟨nested, hc'⟩ := declared
      obtain rfl := Option.some.inj (hc.symm.trans hc')
      have table : (if (spec i).kind == .dataclass then some _ else none) = some fs := table
      by_cases hk : (spec i).kind = .dataclass
      · exact hk
      · rw [if_neg (by simpa using hk)] at table
        cases table
    rw [declared.dataField_eq kind] at h
    by_cases own : x ∈ (spec i).ownFields.map FieldDecl.name
    · obtain ⟨fd, mem, rfl⟩ := List.mem_map.1 own
      rw [ClassSpec.lastAt_own _ mem] at h
      obtain rfl := Option.some.inj h
      exact .own declared kind mem
    · rw [ClassSpec.lastAt_other _ own, Option.none_or] at h
      obtain ⟨t, nearest, h⟩ := Option.bind_eq_some_iff.1 h
      obtain ⟨k, table, h⟩ := Option.bind_eq_some_iff.1 h
      exact .takenOver declared kind own nearest table (ih i c hc h)

end Data

/-! ### Validated models -/

/-- A base passes the fields on that its class has. -/
theorem passedOn_eq (w : World) (base : TypeExpr) (x : String) :
    (Table.lastAt (ClassSpec.passedOn w base) x).map (fun m => (m.name, m.required)) =
      base.position?.bind fun j => w.modelField? x j := by
  unfold ClassSpec.passedOn modelField?
  cases base with
  | declared j => cases hc : w.class? j <;> simp [TypeExpr.position?, hc, Table.lastAt]
  | filled j args =>
    cases hc : w.class? j with
    | none => simp [TypeExpr.position?, hc, Table.lastAt]
    | some c =>
      simp only [hc, Option.map_some, Option.getD_some, modelFieldsOf, Table.keys_zip_map,
        Table.lastAt_mapValues, TypeExpr.position?, Option.bind_some, Option.map_map]
      rfl
  | _ => rfl

end World

namespace ClassSpec

variable {spec : ClassSpec} {x : String}

theorem mem_classVars :
    x ∈ spec.classVars ↔ ∃ fd ∈ spec.ownFields, fd.name = x ∧ World.isClassVar fd.type = true := by
  unfold classVars
  rw [List.mem_map]
  constructor
  · rintro ⟨fd, hfd, hname⟩
    obtain ⟨mem, var⟩ := List.mem_filter.1 hfd
    exact ⟨fd, mem, hname, var⟩
  · rintro ⟨fd, mem, hname, var⟩
    exact ⟨fd, List.mem_filter.2 ⟨mem, var⟩, hname⟩

/-- The table of a validated model is written with what classes above offer, then with what bases
pass on, and last with its own fields. -/
theorem lastAt_modelFields (spec : ClassSpec) (w : World) (x : String) :
    Table.lastAt (spec.modelFields w (spec.above w)) x =
      if x ∈ spec.classVars then none
      else (Table.lastAt ((spec.ownFields.filter isModelField).map fun f =>
          (f.name, modelField w f)) x).or
        ((spec.bases.findSome? fun base => Table.lastAt (passedOn w base) x).or
          ((spec.above w).findSome? fun t => Table.lastAt (w.offered t) x)) := by
  have passed : ((spec.bases.map (passedOn w)).reverse.foldl Table.merge []).Distinct :=
    Table.distinct_nil.foldl_merge (fun t => t) _
  have bases : ((spec.bases.map (passedOn w)).reverse.foldl Table.merge []).get? x =
      spec.bases.findSome? fun base => Table.lastAt (passedOn w base) x := by
    refine (Table.get?_foldl_merge [] (fun t => t) _ x).trans ?_
    rw [List.reverse_reverse, List.findSome?_map, Table.get?_nil, Option.or_none]
    rfl
  have above : (((spec.above w).filterMap fun
      | .declared i => w.class? i
      | _ => none).reverse.foldl (fun acc c => Table.merge acc (w.offers c)) []).get? x =
        (spec.above w).findSome? fun t => Table.lastAt (w.offered t) x := by
    rw [Table.get?_foldl_merge, List.reverse_reverse, findSome?_filterMap, Table.get?_nil,
      Option.or_none]
    congr 1
    funext t
    cases t with
    | declared j => cases hc : w.class? j <;> simp [World.offered, hc, Table.lastAt]
    | _ => rfl
  unfold modelFields
  show Table.lastAt (List.filter (fun e => !spec.classVars.contains e.1) _) x = _
  rw [Table.lastAt_filter fun n => !spec.classVars.contains n,
    Table.Distinct.lastAt ((Table.Distinct.merge (Table.distinct_nil.foldl_merge _ _) _).merge _),
    Table.get?_merge, Table.get?_merge, (Table.distinct_ofList _).lastAt, Table.get?_ofList,
    passed.lastAt, bases, ← above]
  by_cases h : x ∈ spec.classVars
  · simp [h]
  · rw [if_neg h, if_pos (by simpa using h)]
    rfl

end ClassSpec

namespace World

section Models

variable {w earlier : World} {spec : ClassSpec} {i : Nat} {x shown : String} {b : Bool}
  {t : TypeExpr} {fd : FieldDecl}

theorem DeclaredAs.modelField_eq (declared : w.DeclaredAs earlier spec i)
    (validated : spec.isValidated earlier = true) (x : String) : w.modelField? x i =
      (Table.lastAt (spec.modelFields earlier (spec.above earlier)) x).map
        fun m => (m.name, m.required) := by
  obtain ⟨nested, hc⟩ := declared
  have table : (spec.declare earlier).modelFields =
      spec.modelFields earlier (spec.above earlier) := if_pos validated
  unfold modelField?
  rw [hc]
  exact congrArg (fun u => Option.map _ (Table.lastAt u x)) table

/-- Of its own fields a validated model has those that count as such. -/
theorem DeclaredAs.modelField_own (declared : w.DeclaredAs earlier spec i)
    (validated : spec.isValidated earlier = true) (mem : fd ∈ spec.ownFields)
    (field : ClassSpec.isModelField fd = true) : w.modelField? fd.name i =
      some (fd.shown.getD fd.name, !fd.hasDefault && !fd.hasFactory) := by
  have noVar : fd.name ∉ spec.classVars := by
    intro h
    obtain ⟨f, hf, hname, var⟩ := ClassSpec.mem_classVars.1 h
    rw [ClassSpec.ownFields_eq hf mem hname] at var
    simp [ClassSpec.isModelField, var] at field
  rw [declared.modelField_eq validated, ClassSpec.lastAt_modelFields, if_neg noVar,
    ClassSpec.lastAt_ownFields _ _ mem field]
  rfl

/-- Fields of other names are those that the bases pass on, and then those that classes above
offer. -/
theorem DeclaredAs.modelField_other (declared : w.DeclaredAs earlier spec i)
    (validated : spec.isValidated earlier = true) (other : spec.Leaves x) : w.modelField? x i =
      ((spec.bases.find? fun base => (ClassSpec.passedOn earlier base).has x).bind fun base =>
        base.position?.bind fun j => earlier.modelField? x j).or
      (((spec.above earlier).find? (earlier.offersField x)).bind fun t =>
        (Table.lastAt (earlier.offered t) x).map fun m => (m.name, m.required)) := by
  have own : Table.lastAt ((spec.ownFields.filter ClassSpec.isModelField).map fun f =>
      (f.name, ClassSpec.modelField earlier f)) x = none := by
    refine Table.lastAt_eq_none fun e he hname => ?_
    obtain ⟨f, hf, rfl⟩ := List.mem_map.1 he
    obtain ⟨hf, field⟩ := List.mem_filter.1 hf
    rw [(other f hf hname).1] at field
    cases field
  have noVar : x ∉ spec.classVars := by
    intro h
    obtain ⟨f, hf, hname, var⟩ := ClassSpec.mem_classVars.1 h
    rw [(other f hf hname).2] at var
    cases var
  have passes (base : TypeExpr) : (Table.lastAt (ClassSpec.passedOn earlier base) x).isSome =
      (ClassSpec.passedOn earlier base).has x := (Table.has_eq_isSome_lastAt _ x).symm
  have offers (t : TypeExpr) : (Table.lastAt (earlier.offered t) x).isSome =
      earlier.offersField x t := by
    cases t with
    | declared j =>
      cases hc : earlier.class? j with
      | none => simp [World.offered, offersField, hc, Table.lastAt]
      | some c =>
        simp [World.offered, World.offers, offersField, hc, Table.isSome_lastAt, List.any_filter]
    | _ => rfl
  rw [declared.modelField_eq validated, ClassSpec.lastAt_modelFields,
    if_neg noVar, own, Option.none_or,
    findSome?_eq_bind passes, findSome?_eq_bind offers, Option.map_or, Option.map_bind,
    Option.map_bind]
  simp only [Function.comp_def, passedOn_eq]

/-- What a class declares itself is what it offers. -/
theorem DeclaredAs.lastAt_offered (declared : w.DeclaredAs earlier spec i)
    (mem : fd ∈ spec.ownFields) (field : ClassSpec.isModelField fd = true) :
    Table.lastAt (w.offered (.declared i)) fd.name = some (ClassSpec.modelField w fd) := by
  obtain ⟨nested, hc⟩ := declared
  have table : w.offered (.declared i) = w.offers { spec.declare earlier with nested } := by
    show ((w.class? i).map w.offers).getD [] = _
    rw [hc]
    rfl
  rw [table]
  exact ClassSpec.lastAt_ownFields (ClassSpec.modelField w) ClassSpec.isModelField mem field

theorem ModelRule.modelField (rule : w.ModelRule i x shown b) :
    w.modelField? x i = some (shown, b) := by
  induction rule with
  | own declared validated mem field => exact declared.modelField_own validated mem field
  | passedOn declared validated other first position rule ih =>
    rw [declared.modelField_other validated other, first, Option.bind_some, position,
      Option.bind_some, ih]
    rfl
  | @offered w earlier earlier' spec spec' i j fd declared validated other unpassed nearest above
      mem field =>
    have none : spec.bases.find?
        (fun base => (ClassSpec.passedOn earlier base).has fd.name) = none :=
      List.find?_eq_none.2 fun base hbase => by simp [unpassed base hbase]
    rw [declared.modelField_other validated other, none, nearest, Option.bind_none,
      Option.none_or, Option.bind_some, above.lastAt_offered mem field]
    rfl

/-- A field that is offered is declared. -/
theorem Grown.of_offersField (hw : w.Grown) (h : w.offersField x t = true) :
    ∃ j fd, t = .declared j ∧ fd.name = x ∧ ClassSpec.isModelField fd = true ∧
      ∃ (earlier : World) (spec : ClassSpec), w.DeclaredAs earlier spec j ∧
        fd ∈ spec.ownFields := by
  cases t with
  | declared j =>
    obtain ⟨c, hc, h⟩ := (Option.any_eq_true _ _).1 h
    obtain ⟨earlier, spec, _, declared⟩ := hw.eachDeclared j c hc
    obtain ⟨fd, mem, h⟩ := List.any_eq_true.1 h
    obtain ⟨field, hname⟩ := Bool.and_eq_true_iff.1 h
    refine ⟨j, fd, rfl, eq_of_beq hname, field, earlier, spec, declared, ?_⟩
    obtain ⟨nested, hc'⟩ := declared
    obtain rfl := Option.some.inj (hc.symm.trans hc')
    exact mem
  | _ => cases h

theorem ModelRule.of_modelField (hw : w.Grown) (h : w.modelField? x i = some (shown, b)) :
    w.ModelRule i x shown b := by
  induction hw generalizing i x shown b with
  | @intro w earlier spec grown declaredAs ih =>
    obtain ⟨m, found, _⟩ := Option.map_eq_some_iff.1 h
    obtain ⟨c, hc, entry⟩ := Option.bind_eq_some_iff.1 found
    have declared := declaredAs i c hc
    have validated : (spec i).isValidated (earlier i) = true := by
      obtain ⟨nested, hc'⟩ := declared
      obtain rfl := Option.some.inj (hc.symm.trans hc')
      by_contra other
      have table : ((spec i).declare (earlier i)).modelFields = [] := if_neg other
      have entry : Table.lastAt ((spec i).declare (earlier i)).modelFields x = some m := entry
      rw [table] at entry
      cases entry
    by_cases own : ∃ fd ∈ (spec i).ownFields, fd.name = x ∧ ClassSpec.isModelField fd = true
    · obtain ⟨fd, mem, rfl, field⟩ := own
      rw [declared.modelField_own validated mem field] at h
      cases h
      exact .own declared validated mem field
    · have other : (spec i).Leaves x := by
        intro fd mem hname
        refine ⟨Bool.eq_false_iff.2 fun field => own ⟨fd, mem, hname, field⟩, ?_⟩
        by_contra var
        rw [declared.modelField_eq validated, ClassSpec.lastAt_modelFields, if_pos
          (ClassSpec.mem_classVars.2 ⟨fd, mem, hname, by simpa using var⟩)] at h
        cases h
      rw [declared.modelField_other validated other] at h
      rcases Option.or_eq_some_iff.1 h with h | ⟨absent, h⟩
      · obtain ⟨base, first, h⟩ := Option.bind_eq_some_iff.1 h
        obtain ⟨j, position, h⟩ := Option.bind_eq_some_iff.1 h
        exact .passedOn declared validated other first position (ih i c hc h)
      · obtain ⟨t, nearest, h⟩ := Option.bind_eq_some_iff.1 h
        have unpassed : ∀ base ∈ (spec i).bases,
            (ClassSpec.passedOn (earlier i) base).has x = false := by
          rw [← Option.not_isSome_iff_eq_none] at absent
          refine fun base hbase => Bool.eq_false_iff.2 fun has => absent ?_
          obtain ⟨first, hfirst⟩ := Option.isSome_iff_exists.1 (List.find?_isSome.2
            (⟨base, hbase, has⟩ : ∃ b ∈ _, (ClassSpec.passedOn (earlier i) b).has x = true))
          have has := List.find?_some hfirst
          rwa [hfirst, Option.bind_some, ← passedOn_eq, Option.isSome_map,
            ← Table.has_eq_isSome_lastAt]
        obtain ⟨j, fd, rfl, rfl, field, earlier', spec', above, mem⟩ :=
          (grown i c hc).of_offersField (List.find?_some nearest)
        rw [above.lastAt_offered mem field] at h
        cases h
        exact .offered declared validated other unpassed nearest above mem field

end Models

end World

/-! ### Dictionaries -/

namespace ClassSpec

variable {spec : ClassSpec} {x : String}

theorem mem_updateRequired {keys required inherited : List String} :
    x ∈ updateRequired keys required inherited ↔
      x ∈ inherited ∧ x ∉ keys ∨ x ∈ required := by
  unfold updateRequired
  simp

/-- Of several classes the last one that has a key decides. -/
theorem mem_foldl_updateRequired {cs : List ClassDecl}
    (known : ∀ c ∈ cs, ∀ k ∈ c.requiredKeys, k ∈ c.annotations.keys) :
    x ∈ cs.foldl (fun acc c => updateRequired c.annotations.keys c.requiredKeys acc) [] ↔
      ∃ c, cs.reverse.find? (·.annotations.has x) = some c ∧ x ∈ c.requiredKeys := by
  induction cs using List.reverseRecOn with
  | nil => simp
  | append_singleton cs c ih =>
    rw [List.foldl_append, List.foldl_cons, List.foldl_nil, mem_updateRequired,
      ih fun c hc => known c (List.mem_append_left _ hc), List.reverse_append,
      List.reverse_singleton, List.singleton_append, List.find?_cons]
    have there := known c (by simp) x
    rw [← Table.has_iff_mem_keys] at there ⊢
    cases has : c.annotations.has x with
    | true => simp
    | false =>
      have absent : x ∉ c.requiredKeys := fun h => by
        rw [has] at there
        cases there h
      simp [absent]

theorem baseDecls_eq (spec : ClassSpec) (w : World) :
    spec.baseDecls w = spec.basePositions.filterMap w.class? := by
  unfold baseDecls basePositions
  generalize spec.bases.filterMap World.baseClass? = classes
  rw [List.filterMap_filterMap]
  congr 1
  funext t
  cases t <;> rfl

/-- The last base that has a key, as a class. -/
theorem find?_baseDecls (spec : ClassSpec) (w : World) (x : String) :
    (spec.baseDecls w).reverse.find? (·.annotations.has x) =
      (spec.basePositions.reverse.find? (w.hasKey x)).bind w.class? := by
  rw [baseDecls_eq, ← List.filterMap_reverse, List.find?_filterMap]
  rfl

end ClassSpec

namespace World

section Keys

variable {w earlier : World} {spec : ClassSpec} {i j : Nat} {x : String} {b : Bool} {total : Bool}

theorem DeclaredAs.typedDict_tables (declared : w.DeclaredAs earlier spec i)
    (kind : spec.kind = .typedDict total) : ∃ c, w.class? i = some c ∧
      c.annotations = Table.merge ((spec.baseDecls earlier).foldl
        (fun acc c => Table.merge acc c.annotations) [])
          (spec.ownFields.map fun f => (f.name, f.type)) ∧
      c.requiredKeys = ClassSpec.updateRequired (spec.ownFields.map FieldDecl.name)
        ((spec.ownFields.filter fun f =>
          (ClassSpec.keyMark f.type).getD total).map FieldDecl.name)
        ((spec.baseDecls earlier).foldl (fun acc c =>
          ClassSpec.updateRequired c.annotations.keys c.requiredKeys acc) []) := by
  obtain ⟨nested, hc⟩ := declared
  refine ⟨_, hc, ?_, ?_⟩
  · show spec.annotations earlier = _
    unfold ClassSpec.annotations
    rw [kind]
  · show spec.requiredKeys earlier = _
    unfold ClassSpec.requiredKeys
    rw [kind]

/-- Only dictionaries require keys. -/
theorem DeclaredAs.requiresKey_other (declared : w.DeclaredAs earlier spec i)
    (kind : ∀ total, spec.kind ≠ .typedDict total) (x : String) : w.requiresKey x i = false := by
  obtain ⟨nested, hc⟩ := declared
  have none : spec.requiredKeys earlier = [] := by
    unfold ClassSpec.requiredKeys
    split
    · rename_i total hk
      exact (kind total hk).elim
    · rfl
  unfold requiresKey
  rw [hc]
  show (spec.requiredKeys earlier).contains x = false
  rw [none]
  rfl

/-- A dictionary has its own keys and those of its bases. -/
theorem DeclaredAs.hasKey_iff (declared : w.DeclaredAs earlier spec i)
    (kind : spec.kind = .typedDict total) (x : String) : w.hasKey x i = true ↔
      (∃ j, j ∈ spec.basePositions ∧ earlier.hasKey x j = true) ∨
        x ∈ spec.ownFields.map FieldDecl.name := by
  obtain ⟨c, hc, annotations, _⟩ := declared.typedDict_tables kind
  have own : Table.keys (spec.ownFields.map fun f => (f.name, f.type)) =
      spec.ownFields.map FieldDecl.name := List.map_map
  have has : w.hasKey x i = c.annotations.has x := by
    unfold hasKey
    rw [hc, Option.any_some]
  rw [has, Table.has_iff_mem_keys, annotations, Table.keys_merge, Table.keys_foldl_merge,
    Table.mem_foldl_addKey, Table.mem_foldl_addKey, own, ClassSpec.baseDecls_eq]
  refine or_congr_left ?_
  simp only [Table.keys_nil, List.not_mem_nil, false_or, List.mem_flatMap, List.mem_filterMap]
  constructor
  · rintro ⟨c, ⟨j, mem, hc⟩, hx⟩
    exact ⟨j, mem, (Option.any_eq_true _ _).2 ⟨c, hc, Table.has_iff_mem_keys.2 hx⟩⟩
  · rintro ⟨j, mem, has⟩
    obtain ⟨c, hc, has⟩ := (Option.any_eq_true _ _).1 has
    exact ⟨c, ⟨j, mem, hc⟩, Table.has_iff_mem_keys.1 has⟩

/-- A key that is not the dictionary's own is required if the last base requires it that has it. -/
theorem DeclaredAs.requiresKey_taken (declared : w.DeclaredAs earlier spec i)
    (kind : spec.kind = .typedDict total)
    (known : ∀ j x, earlier.requiresKey x j = true → earlier.hasKey x j = true)
    (other : x ∉ spec.ownFields.map FieldDecl.name) : w.requiresKey x i =
      (spec.basePositions.reverse.find? (earlier.hasKey x)).any (earlier.requiresKey x) := by
  obtain ⟨c, hc, _, keys⟩ := declared.typedDict_tables kind
  have own : x ∉ (spec.ownFields.filter fun f =>
      (ClassSpec.keyMark f.type).getD total).map FieldDecl.name :=
    fun h => other ((List.filter_sublist.map _).mem h)
  have bases : ∀ c ∈ spec.baseDecls earlier, ∀ k ∈ c.requiredKeys, k ∈ c.annotations.keys := by
    intro c hmem k hk
    rw [ClassSpec.baseDecls_eq] at hmem
    obtain ⟨j, _, hc⟩ := List.mem_filterMap.1 hmem
    have has := known j k ((Option.any_eq_true _ _).2 ⟨c, hc, List.contains_iff_mem.2 hk⟩)
    unfold hasKey at has
    rw [hc, Option.any_some] at has
    exact Table.has_iff_mem_keys.1 has
  rw [Bool.eq_iff_iff]
  have requires : w.requiresKey x i = true ↔ x ∈ c.requiredKeys := by
    unfold requiresKey
    rw [hc, Option.any_some, List.contains_iff_mem]
  rw [requires, keys, ClassSpec.mem_updateRequired, or_iff_left own, and_iff_left other,
    ClassSpec.mem_foldl_updateRequired bases, ClassSpec.find?_baseDecls]
  cases spec.basePositions.reverse.find? (earlier.hasKey x) with
  | none => simp
  | some j => simp [requiresKey, Option.any_eq_true]

theorem DeclaredAs.requiresKey_own (declared : w.DeclaredAs earlier spec i)
    (kind : spec.kind = .typedDict total) {fd : FieldDecl} (mem : fd ∈ spec.ownFields) :
    w.requiresKey fd.name i = (ClassSpec.keyMark fd.type).getD total := by
  have keys : w.requiresKey fd.name i = (spec.requiredKeys earlier).contains fd.name := by
    obtain ⟨nested, hc⟩ := declared
    unfold requiresKey
    rw [hc]
    rfl
  rw [keys, Bool.eq_iff_iff, List.contains_iff_mem]
  exact ClassSpec.mem_requiredKeys kind mem

/-- A class requires only keys that it has. -/
theorem Grown.hasKey_of_requiresKey (hw : w.Grown) (h : w.requiresKey x i = true) :
    w.hasKey x i = true := by
  induction hw generalizing i x with
  | @intro w earlier spec grown declaredAs ih =>
    obtain ⟨c, hc, _⟩ := (Option.any_eq_true _ _).1 h
    have declared := declaredAs i c hc
    by_cases kind : ∃ total, (spec i).kind = .typedDict total
    · obtain ⟨total, kind⟩ := kind
      rw [declared.hasKey_iff kind]
      refine or_iff_not_imp_right.2 fun other => ?_
      rw [declared.requiresKey_taken kind (fun j x => ih i c hc) other] at h
      obtain ⟨j, last, _⟩ := (Option.any_eq_true _ _).1 h
      exact ⟨j, List.mem_reverse.1 (List.mem_of_find?_eq_some last), List.find?_some last⟩
    · rw [declared.requiresKey_other (not_exists.1 kind)] at h
      cases h

theorem KeyRule.requiresKey (rule : w.KeyRule i x b) : w.requiresKey x i = b := by
  induction rule with
  | own declared kind mem => exact declared.requiresKey_own kind mem
  | takenOver declared kind grown other last rule ih =>
    rw [declared.requiresKey_taken kind (fun j x => grown.hasKey_of_requiresKey) other, last]
    exact ih
  | noDictionary declared kind => exact declared.requiresKey_other kind _

theorem KeyRule.of_hasKey (hw : w.Grown) (h : w.hasKey x i = true) :
    w.KeyRule i x (w.requiresKey x i) := by
  induction hw generalizing i x with
  | @intro w earlier spec grown declaredAs ih =>
    obtain ⟨c, hc, _⟩ := (Option.any_eq_true _ _).1 h
    have declared := declaredAs i c hc
    by_cases kind : ∃ total, (spec i).kind = .typedDict total
    · obtain ⟨total, kind⟩ := kind
      by_cases own : x ∈ (spec i).ownFields.map FieldDecl.name
      · obtain ⟨fd, mem, rfl⟩ := List.mem_map.1 own
        rw [declared.requiresKey_own kind mem]
        exact .own declared kind mem
      · obtain ⟨j, mem, has⟩ := ((declared.hasKey_iff kind x).1 h).resolve_right own
        obtain ⟨j, last⟩ := Option.isSome_iff_exists.1
          (List.find?_isSome.2 ⟨j, List.mem_reverse.2 mem, has⟩)
        have grown := grown i c hc
        rw [declared.requiresKey_taken kind (fun j x => grown.hasKey_of_requiresKey) own, last]
        exact .takenOver declared kind grown own last (ih i c hc (List.find?_some last))
    · rw [declared.requiresKey_other (not_exists.1 kind)]
      exact .noDictionary declared (not_exists.1 kind)

end Keys

end World

end ApiCompiler
