import ApiCompiler.Proofs.PathParameters
import ApiCompiler.Proofs.Texts

/-!
# Bodies of own arguments

A method whose own arguments are folded into one body names the model of that body after its class
and itself, with the simple name of the class. Two such methods share a definition exactly when
these names agree. A class name that holds an underscore, or two classes of one simple name, can
make different methods agree, and then the definition has the properties of both.
-/

set_option autoImplicit false

namespace ApiCompiler

namespace Method

/-- The name of the model that own arguments are folded into. -/
def bodyName (m : Method) : String := m.declaringName ++ "_" ++ m.name

/-- The request is made up of the arguments of the method itself, and the first has metadata. -/
structure RequestsOwn (m : Method) : Prop where
  element : m.requestElement = none
  body : m.requestBody = none
  first : ∃ a rest, m.arguments = a :: rest ∧ a.param.isSome

/-- Without underscores in the class names, a body name says which class and method it is made for.
-/
theorem bodyName_inj {m m' : Method} (h : '_' ∉ m.declaringName.toList)
    (h' : '_' ∉ m'.declaringName.toList) :
    m.bodyName = m'.bodyName ↔ m.declaringName = m'.declaringName ∧ m.name = m'.name := by
  constructor
  · intro he
    have chars : m.declaringName.toList ++ '_' :: m.name.toList =
        m'.declaringName.toList ++ '_' :: m'.name.toList := by
      have htext := congrArg String.toList he
      simpa [bodyName, String.toList_append] using htext
    have front : ∀ m : Method, '_' ∉ m.declaringName.toList →
        ∀ c ∈ m.declaringName.toList, (c == '_') = false := by
      intro m hm c hc
      rw [beq_eq_false_iff_ne]
      rintro rfl
      exact hm hc
    obtain ⟨hclass, hname⟩ := Text.append_inj_of_mark (front m h) (front m' h')
      (by simp) (by simp) chars
    exact ⟨String.toList_inj.1 hclass, String.toList_inj.1 (List.cons.inj hname).2⟩
  · rintro ⟨hclass, hname⟩
    rw [bodyName, hclass, hname, bodyName]

end Method

namespace Run

variable {w : World} {p q : Progress}

/-- Form parameters are no bodies. -/
theorem formParameters_location {shaped : List (Argument × Schema)} {xs : List Parameter}
    (h : formParameters shaped p = .ok xs q) : ∀ x ∈ xs, x.location = .formData := by
  intro x hx
  obtain ⟨_, _, form⟩ := exists_of_formParameters h hx
  exact (Argument.sentAs_of_form form).location

/-- Folded arguments are properties under their names, in order of first occurrence. -/
theorem foldArguments_keys {shaped : List (Argument × Schema)} :
    ∀ {properties : Table Schema} {required : List String} {p q : Progress}
      {out : Table Schema × List String}, foldArguments shaped properties required p = .ok out q →
      out.1.keys =
        ((shaped.map Prod.fst).filterMap Argument.parameterName?).foldl Table.addKey
          properties.keys := by
  induction shaped with
  | nil => intro properties required p q out h; cases h; rfl
  | cons e rest ih =>
    obtain ⟨a, shape⟩ := e
    intro properties required p q out h
    rw [List.map_cons]
    unfold foldArguments at h
    cases ha : a.param with
    | none =>
      rw [ha] at h
      rw [List.filterMap_cons_none (by rw [Argument.parameterName?, ha, Option.map_none])]
      exact ih h
    | some info =>
      rw [ha] at h
      obtain ⟨_, r, _, h⟩ := bind_ok.1 h
      have hname : a.parameterName? = some (if info.name = "" then a.name else info.name) := by
        rw [Argument.parameterName?, ha, Option.map_some]
      rw [List.filterMap_cons_some hname, List.foldl_cons, ih h, Table.keys_insert]
      rfl

/-- The definition of an object body has the folded arguments as properties, united with those of
what the name stands for already. -/
theorem objectBody_definition {shaped : List (Argument × Schema)} {name reference : String}
    {x : Parameter} (h : objectBody shaped name reference p = .ok x q) :
    ∃ existing model, q.document.definitions.get? name =
        some (Document.combine name existing model).1 ∧ model.kind = .object ∧
      Table.keys model.properties =
        distinctNames ((shaped.map Prod.fst).filterMap Argument.parameterName?) := by
  obtain ⟨⟨properties, required⟩, r, hf, h⟩ := bind_ok.1 h
  obtain ⟨_, r', hm, h⟩ := bind_ok.1 h
  obtain ⟨_, rfl⟩ := pure_ok.1 h
  rw [onDocument_apply] at hm
  obtain ⟨_, rfl⟩ := EStateM.Result.ok.inj hm
  let model : Schema := { kind := .object, properties, required, reference := some reference }
  refine ⟨r.document.definitions.get? name, model, ?_, rfl, foldArguments_keys hf⟩
  rw [Document.addModel_document, Table.get?_insert, if_pos rfl]

/-- Own arguments are the candidates under the name of the body. -/
theorem candidates_own {m : Method} (hm : m.RequestsOwn) :
    candidates m p = .ok (m.arguments, m.bodyName, m.identifier) p := by
  unfold candidates
  rw [hm.body]
  rfl

/-- The definition of the body has the own arguments as properties, besides those of what the name
stands for already. -/
def DefinesBody (p : Progress) (m : Method) : Prop :=
  ∃ existing model, p.document.definitions.get? m.bodyName =
      some (Document.combine m.bodyName existing model).1 ∧ model.kind = .object ∧
    Table.keys model.properties = distinctNames (m.arguments.filterMap Argument.parameterName?)

/-- Own arguments become form parameters or the one body that has the name. -/
theorem classify_own {m : Method} {xs : List Parameter} (h : classify w m p = .ok xs q)
    (hm : m.RequestsOwn) :
    (∀ x ∈ xs, x.location = .formData) ∨
      xs = [bodyParameter m.bodyName] ∧ DefinesBody q m := by
  obtain ⟨a, rest, hargs, hparam⟩ := hm.first
  unfold classify at h
  rw [hm.element] at h
  simp only at h
  rw [bind_of_ok (candidates_own hm), hargs] at h
  simp only at h
  rw [if_pos hparam] at h
  obtain ⟨shaped, r, hs, h⟩ := bind_ok.1 h
  split at h
  · exact .inl (formParameters_location h)
  · obtain ⟨y, r', hy, h⟩ := bind_ok.1 h
    obtain ⟨rfl, rfl⟩ := pure_ok.1 h
    have defined := objectBody_definition hy
    rw [resolveArguments_arguments hs, ← hargs] at defined
    right
    constructor
    · rw [objectBody_parameter hy]
    · exact defined

end Run

/-- The operation has a body parameter of that name, which refers to the definition of that name. -/
def Operation.HasBody (op : Operation) (name : String) : Prop :=
  ∃ x ∈ op.parameters, x.name = name ∧ x.location = .body ∧ x.shape = .refTo name

namespace Route

/-- Bodies stay what they are when an operation is put below its path. -/
theorem inherit_hasBody {op : Operation} {name : String} (h : op.HasBody name)
    (parameters : List Parameter) : (inherit op parameters).HasBody name := by
  obtain ⟨x, hx, hname, hloc, hshape⟩ := h
  obtain ⟨y, hy, hname', hloc', _, hshape'⟩ := exists_mem_inherit hx parameters
  exact ⟨y, hy, hname'.trans hname, hloc'.trans hloc, hshape'.trans hshape⟩

theorem mem_addPlaceholders {x : Parameter} (patterns : Table String) (names : List String)
    {op : Operation} (hx : x ∈ op.parameters) :
    x ∈ (names.foldl (addPlaceholder patterns) op).parameters := by
  induction names generalizing op with
  | nil => exact hx
  | cons name names ih =>
    apply ih
    unfold addPlaceholder
    split
    · exact hx
    · exact List.mem_append_left _ hx

theorem reconcile_hasBody {op : Operation} {name : String} (h : op.HasBody name)
    (template : String) (patterns : Table String) :
    (reconcile op template patterns).HasBody name := by
  obtain ⟨x, hx, hname, hloc, hshape⟩ := h
  refine ⟨placeParameter (Path.placeholders template) patterns x, ?_, ?_, ?_, ?_⟩
  · exact mem_addPlaceholders patterns _ (List.mem_map_of_mem hx)
  · rw [placeParameter_name, hname]
  · exact placeParameter_body _ _ hloc
  · rw [placeParameter_shape, hshape]

end Route

namespace Entry

/-- The operation has been built with the arguments of its method folded into one body. -/
structure FoldsArguments (e : Entry) : Prop where
  own : e.method.RequestsOwn
  body : ∃ x ∈ e.built.parameters, x.location = .body

variable {w : World} {e : Entry}

theorem build_of_foldsArguments {p q : Progress}
    (hb : Run.build w e.method p = .ok (some e.built) q) (hf : e.FoldsArguments) :
    e.built.parameters = [Run.bodyParameter e.method.bodyName] ∧ Run.DefinesBody q e.method := by
  obtain ⟨r, hc⟩ := Run.build_classify hb
  rcases Run.classify_own hc hf.own with hform | hbody
  · obtain ⟨x, hx, hloc⟩ := hf.body
    rw [hform x hx] at hloc
    cases hloc
  · exact hbody

theorem built_of_foldsArguments (he : e.Arises w) (hf : e.FoldsArguments) :
    e.built.parameters = [Run.bodyParameter e.method.bodyName] := by
  obtain ⟨p, q, hb⟩ := he.built
  exact (build_of_foldsArguments hb hf).1

theorem operation_hasBody (he : e.Arises w) (hf : e.FoldsArguments) :
    e.operation.HasBody e.method.bodyName := by
  have built : e.built.HasBody e.method.bodyName := by
    refine ⟨Run.bodyParameter e.method.bodyName, ?_, rfl, rfl, rfl⟩
    rw [built_of_foldsArguments he hf]
    exact List.mem_singleton_self _
  have placed := Route.inherit_hasBody
    (Route.reconcile_hasBody built e.template.text e.template.patterns) e.descent.parameters
  have hparameters : e.operation.parameters = (Route.inherit (Route.reconcile e.built
      e.template.text e.template.patterns) e.descent.parameters).parameters :=
    e.operation_parameters.trans (Run.placed_parameters _ _ _ _)
  unfold Operation.HasBody
  rw [hparameters]
  exact placed

/-- The bodies that two methods are given refer to one definition. -/
def SharesBody (e e' : Entry) : Prop :=
  ∃ x ∈ e.built.parameters, ∃ x' ∈ e'.built.parameters, x.shape.ref = x'.shape.ref

theorem sharesBody_iff {e' : Entry} (he : e.Arises w) (he' : e'.Arises w) (hf : e.FoldsArguments)
    (hf' : e'.FoldsArguments) : e.SharesBody e' ↔ e.method.bodyName = e'.method.bodyName := by
  have hbuilt := built_of_foldsArguments he hf
  have hbuilt' := built_of_foldsArguments he' hf'
  unfold SharesBody
  rw [hbuilt, hbuilt']
  simp [Run.bodyParameter, Schema.refTo]

end Entry

/-- After any reads, the operation of a method whose own arguments are folded has a body parameter
under its body name, and the definition has got those arguments as properties when the operation was
built. Two such methods share a definition exactly when their body names agree, and with class names
without underscores exactly when simple class name and method name agree. -/
theorem Run.afterReads_bodies {w : World} {p : Progress} (fresh : p.document.operations = [])
    (reads : List (TypeExpr × Bool)) :
    (∀ o ∈ (afterReads w reads p).document.operations, ∃ e : Entry, e.Arises w ∧ o = e.slotted ∧
      (e.FoldsArguments → o.2.2.HasBody e.method.bodyName)) ∧
    (∀ e : Entry, e.FoldsArguments → ∀ q r, build w e.method q = .ok (some e.built) r →
      DefinesBody r e.method) ∧
    ∀ e e' : Entry, e.Arises w → e'.Arises w → e.FoldsArguments → e'.FoldsArguments →
      (e.SharesBody e' ↔ e.method.bodyName = e'.method.bodyName) ∧
      ('_' ∉ e.method.declaringName.toList → '_' ∉ e'.method.declaringName.toList →
        (e.SharesBody e' ↔ e.method.declaringName = e'.method.declaringName ∧
          e.method.name = e'.method.name)) := by
  refine ⟨?_, fun e hf q r hb => (Entry.build_of_foldsArguments hb hf).2, ?_⟩
  · have stored := allowsScanning_of_stored (w := w)
      (P := fun o => ∃ e : Entry, e.Arises w ∧ o = e.slotted ∧
        (e.FoldsArguments → o.2.2.HasBody e.method.bodyName))
      fun e he => ⟨e, he, rfl, e.operation_hasBody he⟩
    apply afterReads_keeps stored reads p
    rw [fresh]
    exact fun o ho => absurd ho List.not_mem_nil
  · intro e e' he he' hf hf'
    have shared := Entry.sharesBody_iff he he' hf hf'
    refine ⟨shared, fun hclass hclass' => ?_⟩
    rw [shared]
    exact Method.bodyName_inj hclass hclass'

/-- A service with one method, which takes an address. -/
def World.addressService (name qualname path method argument : String) : TypeDecl :=
  .cls {
    name
    qualname
    above := [.builtin .object]
    service := some {}
    path := some path
    methods := [(method, {
      name := method
      marked := true
      operation := some {}
      arguments := [{
        name := argument
        annotation := some (.declared 0)
        params := [{ name := argument, required := true }] }] })] }

/-- Two services of one simple name in different classes, and two whose names with those of their
methods are read in two ways. -/
def World.addressBook : World where
  decls := [
    .cls {
      name := "Address"
      qualname := "Address"
      above := [.builtin .object]
      annotations := [("city", .builtin .str)] },
    addressService "Book" "Home.Book" "/home" "add" "home",
    addressService "Book" "Office.Book" "/office" "add" "office",
    addressService "User" "User" "/user" "add_item" "user",
    addressService "User_add" "User_add" "/items" "item" "item"]

/-- The paths of the stored operations, with what their parameters refer to. -/
def World.bodyReferences (p : Progress) : List (String × List (Option String)) :=
  p.document.operations.map fun o => (o.1, o.2.2.parameters.map fun x => x.shape.ref)

/-- Each two of the bodies have the same name. -/
theorem Run.afterReads_bodies_addressBook :
    ∃ q, q = afterReads World.addressBook [(.declared 1, false), (.declared 2, false),
        (.declared 3, false), (.declared 4, false)] {} ∧
      World.bodyReferences q = [("/home", [some "Book_add"]), ("/office", [some "Book_add"]),
        ("/user", [some "User_add_item"]), ("/items", [some "User_add_item"])] ∧
      ∀ o ∈ q.document.operations, ∃ e : Entry, e.Arises World.addressBook ∧ o = e.slotted ∧
        (e.FoldsArguments → o.2.2.HasBody e.method.bodyName) := by
  have main := afterReads_bodies (w := World.addressBook) (p := {}) rfl
    [(.declared 1, false), (.declared 2, false), (.declared 3, false), (.declared 4, false)]
  exact ⟨_, rfl, by decide +kernel, main.1⟩

/-- The classes and names of the methods of a service, with the names that they declare. -/
def World.outlineMethods (w : World) (t : TypeExpr) : List (String × String × List String) :=
  match w.loadService t with
  | .ok s => s.methods.map fun m => (m.declaringType, m.name, m.declaredNames)
  | .error _ => []

/-- The property names of a definition. -/
def World.propertiesOf (p : Progress) (name : String) : Option (List String) :=
  (p.document.definitions.get? name).map fun s => Table.keys s.properties

/-- Methods of different classes share their body, which has the arguments of both as properties:
where the classes have one simple name, and where a class name holds an underscore. -/
theorem World.addressBook_shared :
    (∃ q, (do
        Run.read addressBook (.declared 1) false
        Run.read addressBook (.declared 2) false) {} = .ok () q ∧
      bodyReferences q = [("/home", [some "Book_add"]), ("/office", [some "Book_add"])] ∧
      propertiesOf q "Book_add" = some ["home", "office"]) ∧
    addressBook.outlineMethods (.declared 1) = [("app.Home.Book", "add", ["home"])] ∧
    addressBook.outlineMethods (.declared 2) = [("app.Office.Book", "add", ["office"])] ∧
    (∃ q, (do
        Run.read addressBook (.declared 3) false
        Run.read addressBook (.declared 4) false) {} = .ok () q ∧
      bodyReferences q =
        [("/user", [some "User_add_item"]), ("/items", [some "User_add_item"])] ∧
      propertiesOf q "User_add_item" = some ["user", "item"]) ∧
    addressBook.outlineMethods (.declared 3) = [("app.User", "add_item", ["user"])] ∧
    addressBook.outlineMethods (.declared 4) = [("app.User_add", "item", ["item"])] := by
  have seen (i j : Nat) {b : List (String × List (Option String)) × Option (List String)}
      {name : String} (h : Run.observe (do
        Run.read addressBook (.declared i) false
        Run.read addressBook (.declared j) false)
        (fun q => (bodyReferences q, propertiesOf q name)) = some b) :
      ∃ q, (do
        Run.read addressBook (.declared i) false
        Run.read addressBook (.declared j) false) {} = .ok () q ∧
        bodyReferences q = b.1 ∧ propertiesOf q name = b.2 := by
    obtain ⟨_, q, hread, rfl⟩ := Run.observe_some h
    exact ⟨q, hread, rfl, rfl⟩
  refine ⟨?_, by decide +kernel, by decide +kernel, ?_, by decide +kernel, by decide +kernel⟩
  · exact seen 1 2 (b := ([("/home", [some "Book_add"]), ("/office", [some "Book_add"])],
      some ["home", "office"])) (by decide +kernel)
  · exact seen 3 4 (b := ([("/user", [some "User_add_item"]), ("/items", [some "User_add_item"])],
      some ["user", "item"])) (by decide +kernel)

end ApiCompiler
