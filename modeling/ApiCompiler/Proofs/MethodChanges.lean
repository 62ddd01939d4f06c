import Mathlib.Data.List.Forall2
import ApiCompiler.Compilation.Scan

/-!
# Types apart from methods

The methods of declared classes are changed one by one, in place. What a type is called, what it
stands for, what it inherits from, its fields and its shape stay as they are: of the methods of a
class they take the names only.
-/

set_option autoImplicit false

namespace ApiCompiler

/-- The class with its methods changed. -/
def ClassDecl.mapMethods (f : String → MethodDecl → MethodDecl) (c : ClassDecl) : ClassDecl :=
  { c with methods := c.methods.map fun (name, m) => (name, f name m) }

/-- The declaration with the methods of a class changed. -/
def TypeDecl.mapMethods (f : String → MethodDecl → MethodDecl) : TypeDecl → TypeDecl
  | .cls c => .cls (c.mapMethods f)
  | d => d

/-- The world with the methods of its classes changed, each by its class and its name. -/
def World.mapMethods (w : World) (f : Nat → String → MethodDecl → MethodDecl) : World :=
  { w with decls := w.decls.mapIdx fun i => TypeDecl.mapMethods (f i) }

namespace World

variable {w : World} {f : Nat → String → MethodDecl → MethodDecl}

@[simp] theorem names_mapMethods : (w.mapMethods f).names = w.names := rfl

@[simp] theorem decls_length_mapMethods : (w.mapMethods f).decls.length = w.decls.length := by
  simp [mapMethods]

@[simp] theorem class?_mapMethods (i : Nat) :
    (w.mapMethods f).class? i = (w.class? i).map (ClassDecl.mapMethods (f i)) := by
  simp only [class?, mapMethods, List.getElem?_mapIdx]
  rcases w.decls[i]? with _ | ⟨_⟩ | ⟨_⟩ | ⟨c⟩ <;> rfl

/-- What is read off a class apart from its methods. -/
theorem map_class?_mapMethods {α : Type} {g : ClassDecl → α}
    (hg : ∀ h c, g (ClassDecl.mapMethods h c) = g c) (i : Nat) :
    ((w.mapMethods f).class? i).map g = (w.class? i).map g := by
  rw [class?_mapMethods, Option.map_map]
  exact congrArg (Option.map · _) (funext (hg _))

theorem bind_class?_mapMethods {α : Type} {g : ClassDecl → Option α}
    (hg : ∀ h c, g (ClassDecl.mapMethods h c) = g c) (i : Nat) :
    ((w.mapMethods f).class? i).bind g = (w.class? i).bind g := by
  rw [class?_mapMethods, Option.bind_map]
  exact congrArg (Option.bind _) (funext (hg _))

/-! ### Names -/

@[simp] theorem declaredName_mapMethods : (w.mapMethods f).declaredName = w.declaredName := by
  funext i
  simp only [declaredName, mapMethods, List.getElem?_mapIdx]
  rcases w.decls[i]? with _ | ⟨_⟩ | ⟨_⟩ | ⟨c⟩ <;> rfl

@[simp] theorem declaredQualname_mapMethods :
    (w.mapMethods f).declaredQualname = w.declaredQualname := by
  funext i
  simp only [declaredQualname, class?_mapMethods, declaredName_mapMethods]
  cases w.class? i <;> rfl

theorem filledNames_mapMethods :
    (∀ t, (w.mapMethods f).filledName t = w.filledName t) ∧
      ∀ ts, (w.mapMethods f).filledNames ts = w.filledNames ts := by
  apply filledName.mutual_induct <;> intros <;> simp only [filledName, filledNames,
    declaredName_mapMethods, declaredQualname_mapMethods, *]

@[simp] theorem filledName_mapMethods : (w.mapMethods f).filledName = w.filledName :=
  funext filledNames_mapMethods.1

@[simp] theorem text_mapMethods : (w.mapMethods f).text = w.text := by
  funext t
  -- The recursion is compared as a whole: it goes through names of declarations only.
  delta text text._f memberTexts._f texts._f
  simp only [declaredName_mapMethods, declaredQualname_mapMethods, filledNames_mapMethods.2]

@[simp] theorem shown_mapMethods (t : TypeExpr) : (w.mapMethods f).shown t = w.shown t := by
  simp only [shown, text_mapMethods, declaredName_mapMethods,
    map_class?_mapMethods (g := ClassDecl.kind) fun _ _ => rfl]

@[simp] theorem simpleName_mapMethods (t : TypeExpr) :
    (w.mapMethods f).simpleName t = w.simpleName t := by
  simp only [simpleName, declaredName_mapMethods, filledName_mapMethods]

@[simp] theorem qualifiedName_mapMethods (t : TypeExpr) :
    (w.mapMethods f).qualifiedName t = w.qualifiedName t := by
  simp only [qualifiedName, qualname, declaredQualname_mapMethods, simpleName_mapMethods]

@[simp] theorem modelName_mapMethods (t : TypeExpr) :
    (w.mapMethods f).modelName t = w.modelName t := by
  have labels : (w.mapMethods f).label = w.label := by
    funext t
    simp only [label, declaredName_mapMethods, filledName_mapMethods, text_mapMethods]
  simp only [modelName, qualifiedName_mapMethods, labels]

@[simp] theorem cycleName_mapMethods : (w.mapMethods f).cycleName = w.cycleName := by
  funext t
  simp only [cycleName, qualifiedName_mapMethods, text_mapMethods]

/-! ### Ancestors -/

@[simp] theorem lineage_mapMethods (t : TypeExpr) : (w.mapMethods f).lineage t = w.lineage t := by
  simp only [lineage, map_class?_mapMethods (g := ClassDecl.above) fun _ _ => rfl]

@[simp] theorem isBelow_mapMethods (t : TypeExpr) (c : Builtin) :
    (w.mapMethods f).isBelow t c = w.isBelow t c := by
  simp only [isBelow, lineage_mapMethods]

/-- The declared classes among the ancestors, each with its methods changed. -/
theorem declaredLineage_mapMethods (t : TypeExpr) :
    List.Forall₂ (fun c' c => ∃ i, w.class? i = some c ∧ c' = c.mapMethods (f i))
      ((w.mapMethods f).declaredLineage t) (w.declaredLineage t) := by
  rw [declaredLineage, declaredLineage, lineage_mapMethods]
  induction w.lineage t with
  | nil => exact .nil
  | cons u us ih =>
    cases u with
    | declared i =>
      have hc' := class?_mapMethods (w := w) (f := f) i
      cases hc : w.class? i with
      | none =>
        simp only [List.filterMap_cons, hc', hc, Option.map_none]
        exact ih
      | some c =>
        simp only [List.filterMap_cons, hc', hc, Option.map_some]
        exact .cons ⟨i, hc, rfl⟩ ih
    | _ => exact ih

theorem map_declaredLineage_mapMethods {α : Type} {g : ClassDecl → α}
    (hg : ∀ h c, g (ClassDecl.mapMethods h c) = g c) (t : TypeExpr) :
    ((w.mapMethods f).declaredLineage t).map g = (w.declaredLineage t).map g := by
  have classes := declaredLineage_mapMethods (w := w) (f := f) t
  generalize (w.mapMethods f).declaredLineage t = cs', w.declaredLineage t = cs at classes ⊢
  induction classes with
  | nil => rfl
  | cons h _ ih =>
    obtain ⟨i, _, rfl⟩ := h
    rw [List.map_cons, List.map_cons, hg, ih]

theorem any_declaredLineage_mapMethods {p : ClassDecl → Bool}
    (hp : ∀ h c, p (ClassDecl.mapMethods h c) = p c) (t : TypeExpr) :
    ((w.mapMethods f).declaredLineage t).any p = (w.declaredLineage t).any p := by
  have := congrArg (List.any · id) (map_declaredLineage_mapMethods (w := w) (f := f) hp t)
  simpa only [List.any_map, Function.id_comp] using this

theorem head_declaredLineage_mapMethods {α : Type} {g : ClassDecl → α}
    (hg : ∀ h c, g (ClassDecl.mapMethods h c) = g c) (t : TypeExpr) :
    ((w.mapMethods f).declaredLineage t).head?.map g = (w.declaredLineage t).head?.map g := by
  rw [← List.head?_map, ← List.head?_map, map_declaredLineage_mapMethods hg]

@[simp] theorem isModel_mapMethods (t : TypeExpr) : (w.mapMethods f).isModel t = w.isModel t :=
  any_declaredLineage_mapMethods (fun _ _ => rfl) t

@[simp] theorem isEnumeration_mapMethods (t : TypeExpr) :
    (w.mapMethods f).isEnumeration t = w.isEnumeration t :=
  any_declaredLineage_mapMethods (fun _ _ => rfl) t

@[simp] theorem hasAttribute_mapMethods (t : TypeExpr) (name : String) :
    (w.mapMethods f).hasAttribute t name = w.hasAttribute t name := by
  have own : (w.mapMethods f).ownAttributes = w.ownAttributes := by
    funext u
    cases u with
    | declared i =>
      simp only [ownAttributes, class?_mapMethods]
      cases w.class? i with
      | none => rfl
      | some c => simp [ClassDecl.mapMethods, Table.keys, Function.comp_def]
    | _ => rfl
  simp only [hasAttribute, someHasAttribute, lineage_mapMethods, own]

/-! ### Arguments of types -/

@[simp] theorem parameters_mapMethods (t : TypeExpr) :
    (w.mapMethods f).parameters t = w.parameters t := by
  simp only [parameters, map_class?_mapMethods (g := ClassDecl.typeVars) fun _ _ => rfl]

@[simp] theorem holdsItems_mapMethods (t : TypeExpr) :
    (w.mapMethods f).holdsItems t = w.holdsItems t := by
  simp only [holdsItems, lineage_mapMethods]
  refine congrArg (Option.getD · false) (congrArg (List.findSome? · _) (funext fun u => ?_))
  cases u with
  | declared i => exact bind_class?_mapMethods (fun _ _ => rfl) i
  | _ => rfl

@[simp] theorem subscript_mapMethods (t : TypeExpr) (args : List TypeExpr) :
    (w.mapMethods f).subscript t args = w.subscript t args := by
  simp only [subscript, parameters_mapMethods, holdsItems_mapMethods, isModel_mapMethods]

@[simp] theorem applyTo_mapMethods (t : TypeExpr) (args : List TypeExpr) :
    (w.mapMethods f).applyTo t args = w.applyTo t args := by
  simp only [applyTo, plainName, subscript_mapMethods, parameters_mapMethods, shown_mapMethods,
    simpleName_mapMethods, text_mapMethods]

theorem resolveNamesList_mapMethods (names : Table TypeExpr) :
    (∀ t, (w.mapMethods f).resolveNames names t = w.resolveNames names t) ∧
      ∀ ts, (w.mapMethods f).resolveNamesList names ts = w.resolveNamesList names ts := by
  apply resolveNames.mutual_induct names <;> intros <;> simp only [resolveNames, resolveNamesList,
    applyTo_mapMethods, *]

@[simp] theorem resolveNames_mapMethods (names : Table TypeExpr) (t : TypeExpr) :
    (w.mapMethods f).resolveNames names t = w.resolveNames names t :=
  (resolveNamesList_mapMethods names).1 t

@[simp] theorem resolveWritten_mapMethods (t : TypeExpr) :
    (w.mapMethods f).resolveWritten t = w.resolveWritten t :=
  resolveNames_mapMethods _ _

/-! ### Fields -/

theorem addAnnotations_mapMethods (names : Table TypeExpr) : ∀ acc annotations,
    (w.mapMethods f).addAnnotations names acc annotations = w.addAnnotations names acc annotations
  | _, [] => rfl
  | acc, (name, t) :: rest => by
    simp only [addAnnotations, resolveNames_mapMethods, addAnnotations_mapMethods names _ rest]

@[simp] theorem annotationsOf_mapMethods (t : TypeExpr) :
    (w.mapMethods f).annotationsOf t = w.annotationsOf t := by
  have collects {cs' cs : List ClassDecl} (h : List.Forall₂ (fun c' c =>
      ∃ i, w.class? i = some c ∧ c' = c.mapMethods (f i)) cs' cs) : ∀ acc,
      (w.mapMethods f).collectAnnotations acc cs' = w.collectAnnotations acc cs := by
    induction h with
    | nil => intro acc; rfl
    | cons hc _ ih =>
      intro acc
      obtain ⟨i, _, rfl⟩ := hc
      simp only [collectAnnotations, addAnnotations_mapMethods, ih]
      rfl
  simp only [annotationsOf, collects (List.rel_reverse (declaredLineage_mapMethods t))]

@[simp] theorem annotatedFields_mapMethods (t : TypeExpr) (hints : Table TypeExpr) :
    (w.mapMethods f).annotatedFields t hints = w.annotatedFields t hints := by
  have data : (w.mapMethods f).dataFieldsOf t = w.dataFieldsOf t := by
    have := congrArg (List.findSome? id)
      (map_declaredLineage_mapMethods (w := w) (f := f) (g := ClassDecl.dataFields)
        (fun _ _ => rfl) t)
    simpa only [dataFieldsOf, List.findSome?_map, Function.id_comp] using this
  have dict : (w.mapMethods f).isTypedDict t = w.isTypedDict t :=
    any_declaredLineage_mapMethods (fun _ _ => rfl) t
  have keys : (w.mapMethods f).requiredKeysOf t = w.requiredKeysOf t :=
    congrArg (Option.getD · []) (head_declaredLineage_mapMethods (fun _ _ => rfl) t)
  have tuple : ((w.mapMethods f).namedTupleOf t).map ClassDecl.fields =
      (w.namedTupleOf t).map ClassDecl.fields := by
    have := congrArg (fun cs => (cs.find? fun c => c.1 == ClassKind.namedTuple).map Prod.snd)
      (map_declaredLineage_mapMethods (w := w) (f := f) (g := fun c => (c.kind, c.fields))
        (fun _ _ => rfl) t)
    simpa only [namedTupleOf, List.find?_map, Option.map_map, Function.comp_def] using this
  simp only [annotatedFields, data, dict, keys, hasAttribute_mapMethods]
  cases h' : (w.mapMethods f).namedTupleOf t <;> cases h : w.namedTupleOf t <;>
    simp only [h', h, Option.map_none, Option.map_some, reduceCtorEq, Option.some.injEq] at tuple
  · rfl
  · simp only [tuple]

@[simp] theorem modelFieldsOf_mapMethods (t : TypeExpr) :
    (w.mapMethods f).modelFieldsOf t = w.modelFieldsOf t := by
  have filled : (w.mapMethods f).filledClass = w.filledClass := by
    funext g i
    simp only [filledClass, isModel_mapMethods, subscript_mapMethods, parameters_mapMethods]
  cases t with
  | filled i args =>
    simp only [modelFieldsOf, class?_mapMethods, filled]
    cases w.class? i <;> rfl
  | _ =>
    simp only [modelFieldsOf, head_declaredLineage_mapMethods
      (g := fun c => c.modelFields.values) fun _ _ => rfl]

@[simp] theorem fieldsOf_mapMethods (t : TypeExpr) :
    (w.mapMethods f).fieldsOf t = w.fieldsOf t := by
  have substitute : (w.mapMethods f).substitute = w.substitute := by
    funext bound t
    simp only [World.substitute, parameters_mapMethods, subscript_mapMethods]
  simp only [fieldsOf, isModel_mapMethods, modelFieldsOf_mapMethods, annotationsOf_mapMethods,
    annotatedFields_mapMethods, parameters_mapMethods, substitute]

/-! ### Roles and shapes -/

@[simp] theorem serviceInfo?_mapMethods (t : TypeExpr) :
    (w.mapMethods f).serviceInfo? t = w.serviceInfo? t := by
  cases t with
  | declared i => exact bind_class?_mapMethods (fun _ _ => rfl) i
  | _ => rfl

@[simp] theorem isService_mapMethods (t : TypeExpr) :
    (w.mapMethods f).isService t = w.isService t := by
  rw [isService, serviceInfo?_mapMethods, isService]

@[simp] theorem isRequestHandle_mapMethods (t : TypeExpr) :
    (w.mapMethods f).isRequestHandle t = w.isRequestHandle t :=
  isBelow_mapMethods t _

@[simp] theorem tokenElement_mapMethods (t : TypeExpr) :
    (w.mapMethods f).tokenElement t = w.tokenElement t := by
  have token : (w.mapMethods f).isToken = w.isToken := by
    funext u
    rw [isToken, isBelow_mapMethods, isToken]
  have bases (u : TypeExpr) : (w.mapMethods f).writtenBases u = w.writtenBases u := by
    simp only [writtenBases, lineage_mapMethods]
    refine congrArg (Option.getD · []) (congrArg (List.findSome? · _) (funext fun v => ?_))
    cases v with
    | declared i => exact bind_class?_mapMethods (fun _ _ => rfl) i
    | builtin c => cases c <;> rfl
    | _ => rfl
  have above : ∀ n u, (w.mapMethods f).elementAbove n u = w.elementAbove n u := by
    intro n
    induction n with
    | zero => intro u; rfl
    | succ n ih =>
      intro u
      simp only [elementAbove, token, bases, lineage_mapMethods, funext ih]
  rw [tokenElement, above, lineage_mapMethods, tokenElement]

@[simp] theorem shape_mapMethods (overrides : Overrides) (t : TypeExpr) :
    (w.mapMethods f).shape overrides t = w.shape overrides t := by
  have enumeration (u : TypeExpr) :
      (w.mapMethods f).enumerationSchema? u = w.enumerationSchema? u := by
    simp only [enumerationSchema?, isEnumeration_mapMethods, isBelow_mapMethods,
      head_declaredLineage_mapMethods (g := ClassDecl.enumValues) fun _ _ => rfl]
  have own (u : TypeExpr) : (w.mapMethods f).ownShape u = w.ownShape u := by
    simp only [ownShape, enumeration, primitiveSchema?, isBelow_mapMethods]
  simp only [shape, tokenElement_mapMethods, own]

/-! ### Annotations of methods -/

@[simp] theorem resolveAll_mapMethods (ts : List TypeExpr) :
    (w.mapMethods f).resolveAll ts = w.resolveAll ts := by
  induction ts with
  | nil => rfl
  | cons t ts ih => simp only [resolveAll, resolveWritten_mapMethods, ih]

@[simp] theorem resolved_mapMethods (t : Option TypeExpr) :
    (w.mapMethods f).resolved t = w.resolved t := by
  cases t with
  | none => rfl
  | some t => simp only [resolved, resolveWritten_mapMethods]

@[simp] theorem argumentsOf_mapMethods (owner : String) (m : MethodDecl) :
    (w.mapMethods f).argumentsOf owner m = w.argumentsOf owner m := by
  simp only [argumentsOf, checkAnnotations, resolveAll_mapMethods, resolved_mapMethods,
    isRequestHandle_mapMethods]

end World

/-! ### Resolution -/

namespace Run

variable {w : World} {f : Nat → String → MethodDecl → MethodDecl}

theorem resolve_mapMethods : resolve (w.mapMethods f) = resolve w := by
  have within : ∀ n, resolveWithin (w.mapMethods f) n = resolveWithin w n := by
    intro n
    induction n with
    | zero => rfl
    | succ n ih =>
      funext t
      simp only [resolveWithin, ih, resolveShape, World.shape_mapMethods, resolveModel, untyped,
        World.modelName_mapMethods, World.fieldsOf_mapMethods, World.shown_mapMethods]
  exact within nestingBound

/-! ### Operations -/

theorem classify_mapMethods (m : Method) : classify (w.mapMethods f) m = classify w m := by
  have arguments : ∀ as, resolveArguments (w.mapMethods f) as = resolveArguments w as := by
    intro as
    induction as with
    | nil => rfl
    | cons a as ih => simp only [resolveArguments, resolve_mapMethods, ih]
  simp only [classify, tokenBody, resolve_mapMethods, arguments]

theorem build_mapMethods (m : Method) : build (w.mapMethods f) m = build w m := by
  have shapes : shapeIn (w.mapMethods f) = shapeIn w := by
    funext t container
    simp only [shapeIn, resolve_mapMethods]
  have headers : ∀ hs out, responseHeaders (w.mapMethods f) hs out = responseHeaders w hs out := by
    intro hs
    induction hs with
    | nil => intro out; rfl
    | cons h hs ih => intro out; simp only [responseHeaders, shapes, ih]
  have responses : ∀ rs op,
      declaredResponses (w.mapMethods f) rs op = declaredResponses w rs op := by
    intro rs
    induction rs with
    | nil => intro op; rfl
    | cons r rs ih => intro op; simp only [declaredResponses, headers, shapes, ih]
  simp only [build, headers, successResponse, World.payloadType, World.tokenElement_mapMethods,
    shapes, responses, classify_mapMethods]

end Run

end ApiCompiler
