import ApiCompiler.Proofs.FormOrBody
import ApiCompiler.Proofs.Locations

/-!
# Flat parameters

Besides bodies, a parameter is meant to be a single value, an array of single values or a file: what
does not fit in a form is folded into a body, and so is a table of implicit parameters that has an
object. Whether it has one is asked of the names of types as they are written, and later the names
are read without regard to case and blanks around them. An object under a name such as `Object` is
therefore sent as it is, by the method that declares it and by all operations below that have no
parameter of that name and location themselves. Nothing else makes a parameter that is not flat.
-/

set_option autoImplicit false

namespace ApiCompiler

/-- A single value, an array of single values, or a file. -/
def Schema.Flat (s : Schema) : Prop := s.FitsForm ∨ s.kind = .file

instance (s : Schema) : Decidable s.Flat :=
  decidable_of_iff (s.isSimple = true ∨ s.kind = .file) (by rw [Schema.Flat, Schema.isSimple_iff])

theorem Schema.not_flat_opaqueObject : ¬ opaqueObject.Flat := by decide

/-- All parameters are flat, bodies apart. -/
def Operation.FlatParameters (op : Operation) : Prop :=
  ∀ x ∈ op.parameters, x.location ≠ .body → x.shape.Flat

instance (op : Operation) : Decidable op.FlatParameters :=
  inferInstanceAs (Decidable (∀ x ∈ op.parameters, x.location ≠ .body → x.shape.Flat))

/-! ### Names of types -/

namespace Primitive

/-- The name is read as an object. -/
def IsObject (name : String) : Prop := Text.lower (Text.trim name) = "object"

instance (name : String) : Decidable (IsObject name) :=
  inferInstanceAs (Decidable (Text.lower (Text.trim name) = "object"))

theorem schema_of_isObject {name : String} (h : IsObject name) :
    (schema name).1 = .opaqueObject := by
  unfold IsObject at h
  rw [schema, find?, if_pos h]

theorem schema_flat {name : String} (h : ¬ IsObject name) : (schema name).1.Flat := by
  have single : ∀ e ∈ table, (Schema.primitive e.2.1 e.2.2 []).Flat := by decide
  unfold IsObject at h
  rw [schema, find?, if_neg h]
  cases hk : Table.get? table (Text.lower (Text.trim name)) with
  | none => exact .inl (.inl (.inl rfl))
  | some e => exact single _ (Table.mem_of_get? hk)

end Primitive

/-! ### What a method sends itself -/

/-- The method sends an implicit parameter by itself though it is read as an object, since no name
in the table is that of an object as it is written. -/
structure Method.Scatters (m : Method) (i : ImplicitParam) : Prop extends m.SendsImplicit where
  listed : i ∈ m.decl.implicitParams
  unfolded : ∀ j ∈ m.decl.implicitParams, j.typeName ≠ "object"
  object : Primitive.IsObject i.typeName
  placed : i.place?.isSome = true

namespace Run

variable {w : World} {m : Method} {xs : List Parameter} {p q : Progress}

/-- What a method sends itself is flat, but for the objects that it scatters, and all of these are
sent. -/
theorem classify_flat (h : classify w m p = .ok xs q) :
    (∀ x ∈ xs, x.location ≠ .body →
      x.shape.Flat ∨ ∃ i, m.Scatters i ∧ i.form? = some x) ∧
    ∀ i, m.Scatters i → ∃ x ∈ xs, i.form? = some x := by
  cases classify_ok h with
  | body other =>
    refine ⟨fun x hx hbody => ?_, fun i hi => absurd hi.toSendsImplicit other⟩
    exact absurd (List.mem_singleton.1 hx ▸ rfl) hbody
  | form other _ simple =>
    refine ⟨fun x hx _ => .inl (.inl ?_), fun i hi => absurd hi.toSendsImplicit other⟩
    obtain ⟨e, he, form⟩ := List.mem_filterMap.1 hx
    rw [(Argument.sentAs_of_form form).shape, ← Schema.isSimple_iff]
    exact simple e he
  | folded _ object =>
    obtain ⟨j, hj, object⟩ := object
    refine ⟨fun x hx hbody => ?_, fun i hi => absurd object (hi.unfolded j hj)⟩
    exact absurd (List.mem_singleton.1 hx ▸ rfl) hbody
  | entries implicit unfolded =>
    constructor
    · intro x hx _
      obtain ⟨i, listed, form⟩ := List.mem_filterMap.1 hx
      by_cases object : Primitive.IsObject i.typeName
      · have placed : i.place?.isSome = true := by
          rw [← Option.isSome_map, ← ImplicitParam.form?, form]
          rfl
        exact .inr ⟨i, ⟨implicit, listed, unfolded, object, placed⟩, form⟩
      · rw [(ImplicitParam.sentAs_of_form form).shape]
        exact .inl (Primitive.schema_flat object)
    · intro i hi
      obtain ⟨x, form⟩ : ∃ x, i.form? = some x := by
        rw [← Option.isSome_iff_exists, ImplicitParam.form?, Option.isSome_map]
        exact hi.placed
      exact ⟨x, List.mem_filterMap.2 ⟨i, hi.listed, form⟩, form⟩

end Run

/-! ### What is sent on the way to an operation -/

namespace Route

theorem placeParameter_body_iff (names : List String) (patterns : Table String) (y : Parameter) :
    (placeParameter names patterns y).location = .body ↔ y.location = .body := by
  rw [placeParameter_location]
  split
  · rename_i placed
    exact iff_of_false nofun placed.1
  · exact Iff.rfl

end Route

namespace Entry

/-- The parameters of a method in their place, before it takes over any from above. -/
def own (e : Entry) : List Parameter :=
  (Route.reconcile e.built e.template.text e.template.patterns).parameters

variable {w : World} {e : Entry} {x : Parameter} {c : Content}

theorem contents_placed_eq (e : Entry) (x : Parameter) :
    Route.contents x e.placed.parameters =
      if Route.contents x e.own = [] then (Route.contents x e.descent.parameters).take 1
      else Route.contents x e.own := by
  rw [placed, Run.placed_parameters, Route.contents_inherit]
  rfl

/-- What a method has itself stays what it is when more is taken over. -/
theorem mem_contents_placed (h : c ∈ Route.contents x e.own) :
    c ∈ Route.contents x e.placed.parameters := by
  rw [contents_placed_eq, if_neg (List.ne_nil_of_mem h)]
  exact h

theorem own_flat (he : e.Arises w) (hx : x ∈ e.own) (hbody : x.location ≠ .body) :
    x.shape.Flat ∨ x.shape = .opaqueObject ∧ ∃ i, e.method.Scatters i ∧ i.name = x.name := by
  rcases Route.mem_reconcile_cases hx with ⟨y, hy, rfl⟩ | ⟨name, rfl⟩
  · obtain ⟨p, q, hb⟩ := he.built
    obtain ⟨r, hc⟩ := Run.build_classify hb
    rw [ne_eq, Route.placeParameter_body_iff] at hbody
    rw [Route.placeParameter_shape, Route.placeParameter_name]
    refine ((Run.classify_flat hc).1 y hy hbody).imp_right ?_
    rintro ⟨i, scatters, hform⟩
    have sent := ImplicitParam.sentAs_of_form hform
    exact ⟨sent.shape.trans (Primitive.schema_of_isObject scatters.object), i, scatters,
      sent.name.symm⟩
  · exact .inl (.inl (.inl (.inl rfl)))

/-- An object that a method scatters is sent by its operation. -/
theorem exists_of_scatters (he : e.Arises w) {i : ImplicitParam} (hi : e.method.Scatters i) :
    ∃ x ∈ e.operation.parameters, x.name = i.name ∧ x.location ≠ .body ∧
      x.shape = .opaqueObject := by
  obtain ⟨p, q, hb⟩ := he.built
  obtain ⟨r, hc⟩ := Run.build_classify hb
  obtain ⟨y, hy, hform⟩ := (Run.classify_flat hc).2 i hi
  have sent := ImplicitParam.sentAs_of_form hform
  let z := Route.placeParameter (Path.placeholders e.template.text) e.template.patterns y
  have hz : z ∈ e.own := Route.mem_addPlaceholders _ _ (List.mem_map_of_mem hy)
  have kept : z.content ∈ Route.contents z e.placed.parameters :=
    mem_contents_placed (Route.mem_contents.2 ⟨z, hz, rfl, rfl, rfl⟩)
  obtain ⟨x, hx, hname', hloc, hcontent⟩ := Route.mem_contents.1 kept
  refine ⟨x, e.operation_parameters ▸ hx, ?_, ?_, ?_⟩
  · rw [hname', Route.placeParameter_name, sent.name]
  · rw [hloc, ne_eq, Route.placeParameter_body_iff]
    exact sent.location
  · rw [show x.shape = z.shape from congrArg Content.shape hcontent, Route.placeParameter_shape,
      sent.shape, Primitive.schema_of_isObject hi.object]

end Entry

/-- What the nearest locator passes on is from one of the locators on the way. -/
theorem exists_own_of_passedOn {x : Parameter} {c : Content} {way : List Entry} (hw : Linked way)
    (h : c ∈ Route.contents x (passedOn way)) : ∃ e ∈ way, c ∈ Route.contents x e.own := by
  induction way with
  | nil => cases h
  | cons e above ih =>
    obtain ⟨handed, ha⟩ := hw
    have h : c ∈ Route.contents x e.placed.parameters := h
    rw [Entry.contents_placed_eq] at h
    split at h
    · rw [handed] at h
      obtain ⟨l, hl, hc⟩ := ih ha (List.mem_of_mem_take h)
      exact ⟨l, List.mem_cons_of_mem _ hl, hc⟩
    · exact ⟨e, List.mem_cons_self, h⟩

/-- Every parameter that is no body is flat, or it is an object that a method on the way scatters.
-/
theorem Visit.flat_or_scattered {w : World} {v : Visit} (hv : Linked v.way)
    (ha : ∀ e ∈ v.way, e.Arises w) {x : Parameter} (hx : x ∈ v.entry.operation.parameters)
    (hbody : x.location ≠ .body) :
    x.shape.Flat ∨ x.shape = .opaqueObject ∧
      ∃ e ∈ v.way, ∃ i, e.method.Scatters i ∧ i.name = x.name := by
  rw [v.entry.operation_parameters] at hx
  have sent : x.content ∈ Route.contents x (passedOn v.way) :=
    Route.mem_contents.2 ⟨x, hx, rfl, rfl, rfl⟩
  obtain ⟨e, he, hc⟩ := exists_own_of_passedOn hv sent
  obtain ⟨y, hy, hname, hloc, hcontent⟩ := Route.mem_contents.1 hc
  have shape : y.shape = x.shape := congrArg Content.shape hcontent
  rw [← shape, ← hname]
  refine (Entry.own_flat (ha e he) hy (hloc ▸ hbody)).imp_right ?_
  rintro ⟨object, i, scatters, name⟩
  exact ⟨object, e, he, i, scatters, name⟩

namespace Run

variable {w : World} {t : TypeExpr} {p q : Progress}

/-- The locators on the way to a stored operation are stored too, after it. -/
theorem visited_of_way {s : Service} {d : Descent} {above : List Entry} {ms : List Method}
    {visits : List Visit} (h : Scans w s d above ms p visits q) :
    ∀ v ∈ visits, ∀ e ∈ v.way, e ∈ above ∨ ∃ v' ∈ visits, v'.entry = e := by
  induction h with
  | nil => exact fun v hv => absurd hv List.not_mem_nil
  | unexposed hpath hn rest ih => exact ih
  | hidden ht hi hb rest ih => exact ih
  | @operation e above ms p q r r' visits ht hi hb hs hst rest ih =>
    intro v hv l hl
    rcases List.mem_cons.1 hv with rfl | hv
    · exact (List.mem_cons.1 hl).symm.imp_right fun h => ⟨_, List.mem_cons_self, h.symm⟩
    · exact (ih v hv l hl).imp_right fun ⟨v', hv', h⟩ => ⟨v', List.mem_cons_of_mem _ hv', h⟩
  | @locator e above ms p q r r₁ r₂ r₃ nested visits t sub ht hi hb hs hl hnew inner hst rest
      ihInner ihRest =>
    have here : (⟨e, above⟩ : Visit) ∈ nested ++ ⟨e, above⟩ :: visits :=
      List.mem_append_right _ List.mem_cons_self
    intro v hv l hl
    rcases List.mem_append.1 hv with hv | hv
    · rcases ihInner v hv l hl with hl | ⟨v', hv', h⟩
      · exact (List.mem_cons.1 hl).symm.imp_right fun h => ⟨_, here, h.symm⟩
      · exact .inr ⟨v', List.mem_append_left _ hv', h⟩
    rcases List.mem_cons.1 hv with rfl | hv
    · exact (List.mem_cons.1 hl).symm.imp_right fun h => ⟨_, here, h.symm⟩
    · refine (ihRest v hv l hl).imp_right fun ⟨v', hv', h⟩ => ⟨v', ?_, h⟩
      exact List.mem_append_right _ (List.mem_cons_of_mem _ hv')

theorem visited_of_reads {includeHidden : Bool} {visits : List Visit}
    (h : Reads w t includeHidden p visits q) :
    ∀ v ∈ visits, ∀ e ∈ v.way, ∃ v' ∈ visits, v'.entry = e := by
  intro v hv e he
  cases h with
  | skipped hl hs => cases hv
  | scanned hl hs trace => exact (visited_of_way trace v hv e he).resolve_left List.not_mem_nil

/-- In every read that succeeds, a parameter of an operation is flat or a body, or it is an object
that a method on the way to the operation scatters; and the operation of a method that scatters an
object is not flat. All operations of a read are therefore flat exactly when no method scatters. -/
theorem read_flat {includeHidden : Bool} {u : Unit} (h : read w t includeHidden p = .ok u q) :
    ∃ visits, Reads w t includeHidden p visits q ∧
      (∀ o ∈ q.document.operations,
        o ∈ p.document.operations ∨ ∃ v ∈ visits, o = v.entry.slotted) ∧
      (∀ v ∈ visits,
        (∀ x ∈ v.entry.operation.parameters, x.location ≠ .body →
          x.shape.Flat ∨ x.shape = .opaqueObject ∧
            ∃ e ∈ v.way, ∃ i, e.method.Scatters i ∧ i.name = x.name) ∧
        ∀ i, v.entry.method.Scatters i → ¬ v.entry.operation.FlatParameters) ∧
      ((∀ v ∈ visits, v.entry.operation.FlatParameters) ↔
        ∀ v ∈ visits, ∀ i, ¬ v.entry.method.Scatters i) := by
  obtain ⟨visits, reads⟩ := reads_of_ok h
  have linked := linked_of_reads reads
  have arises := arises_of_reads reads
  have scattered : ∀ v ∈ visits, ∀ i, v.entry.method.Scatters i →
      ¬ v.entry.operation.FlatParameters := by
    intro v hv i hi flat
    obtain ⟨x, hx, _, hbody, hshape⟩ :=
      Entry.exists_of_scatters (arises v hv v.entry List.mem_cons_self) hi
    exact Schema.not_flat_opaqueObject (hshape ▸ flat x hx hbody)
  refine ⟨visits, reads, operations_of_reads reads, fun v hv => ⟨fun x hx hbody => ?_,
    scattered v hv⟩, fun flat v hv i hi => scattered v hv i hi (flat v hv), ?_⟩
  · exact Visit.flat_or_scattered (linked v hv) (arises v hv) hx hbody
  · intro none v hv x hx hbody
    rcases Visit.flat_or_scattered (linked v hv) (arises v hv) hx hbody with
      flat | ⟨_, e, he, i, hi, _⟩
    · exact flat
    · obtain ⟨v', hv', rfl⟩ := visited_of_reads reads v hv e he
      exact absurd hi (none v' hv' i)

end Run

/-- A catalog that is searched by a filter and has entries and a shelf with items. The filter and
the scope of the shelf are objects under names that are read as such, and an entry is one under the
name itself. -/
def World.catalog : World where
  decls :=
    let raw : List ArgumentDecl :=
      [{ name := "request", annotation := some (.builtin .requestHandle) }]
    [.cls {
      name := "Items"
      qualname := "Items"
      above := [.builtin .object]
      service := some {}
      methods := [("all", {
        name := "all"
        marked := true
        path := some (.text "/items")
        operation := some {} })] },
    .cls {
      name := "Catalog"
      qualname := "Catalog"
      above := [.builtin .object]
      service := some {}
      path := some "/catalog"
      methods := [
        ("search", {
          name := "search"
          marked := true
          path := some (.text "/search")
          operation := some {}
          arguments := raw
          implicitParams := [{ name := "filter", typeName := "Object" },
            { name := "since", typeName := "Date" }] }),
        ("add", {
          name := "add"
          marked := true
          path := some (.text "/entries")
          operation := some {}
          arguments := raw
          implicitParams := [{ name := "entry", location := "form", typeName := "object" },
            { name := "note", location := "form" }] }),
        ("shelf", {
          name := "shelf"
          marked := true
          path := some (.text "/shelf")
          operation := some {}
          arguments := raw
          implicitParams := [{ name := "scope", location := "header", typeName := " OBJECT" }]
          returns := some (.declared 0) })] }]
  names := [("Items", .declared 0), ("Catalog", .declared 1)]

/-- The filter and the scope are sent as objects outside of a body, the scope by the items of the
shelf as well, while an entry is folded into a body. -/
theorem World.catalog_scatters :
    ∃ q, Run.read catalog (.declared 1) false {} = .ok () q ∧ outline q = [
      (("/catalog/search", "post"), [("filter", .query, .object), ("since", .query, .string)]),
      (("/catalog/entries", "post"), [("app.Catalog.add", .body, .ref)]),
      (("/catalog/shelf/items", "post"), [("scope", .header, .object)]),
      (("/catalog/shelf", "post"), [("scope", .header, .object)])] ∧
      ∀ o ∈ q.document.operations, o.2.2.FlatParameters ↔ o.1 = "/catalog/entries" := by
  have seen : (Run.read catalog (.declared 1) false).observe (fun q => outline q = [
      (("/catalog/search", "post"), [("filter", .query, .object), ("since", .query, .string)]),
      (("/catalog/entries", "post"), [("app.Catalog.add", .body, .ref)]),
      (("/catalog/shelf/items", "post"), [("scope", .header, .object)]),
      (("/catalog/shelf", "post"), [("scope", .header, .object)])] &&
      q.document.operations.all fun o =>
        decide (o.2.2.FlatParameters ↔ o.1 = "/catalog/entries")) = some true := by decide +kernel
  obtain ⟨_, q, hr, hq⟩ := Run.observe_some seen
  obtain ⟨shapes, flat⟩ := Bool.and_eq_true_iff.1 hq
  refine ⟨q, hr, of_decide_eq_true shapes, fun o ho => ?_⟩
  exact of_decide_eq_true (List.all_eq_true.1 flat o ho)

/-- The items of the shelf are not flat, and a locator above them scatters an object. -/
theorem Run.read_flat_catalog :
    ∃ q visits, read World.catalog (.declared 1) false {} = .ok () q ∧
      Reads World.catalog (.declared 1) false {} visits q ∧
      ∃ v ∈ visits, v.entry.template.text = "/catalog/shelf/items" ∧
        ¬ v.entry.operation.FlatParameters ∧ ∃ e ∈ v.way, ∃ i, e.method.Scatters i := by
  have seen : (read World.catalog (.declared 1) false).observe (fun q =>
      q.document.operations.any fun o =>
        o.1 == "/catalog/shelf/items" && !decide o.2.2.FlatParameters) = some true := by
    decide +kernel
  obtain ⟨_, q, hr, hq⟩ := observe_some seen
  obtain ⟨visits, reads, stored, sent, _⟩ := read_flat hr
  obtain ⟨o, ho, hitems⟩ := List.any_eq_true.1 hq
  obtain ⟨v, hv, rfl⟩ := (stored o ho).resolve_left List.not_mem_nil
  obtain ⟨path, other⟩ := Bool.and_eq_true_iff.1 hitems
  have path : v.entry.template.text = "/catalog/shelf/items" := beq_iff_eq.1 path
  have other : (!decide v.entry.operation.FlatParameters) = true := other
  have other : ¬ v.entry.operation.FlatParameters :=
    of_decide_eq_false (by simpa only [Bool.not_eq_true'] using other)
  obtain ⟨x, hx, hbody, hshape⟩ : ∃ x ∈ v.entry.operation.parameters,
      x.location ≠ .body ∧ ¬ x.shape.Flat := by
    simpa only [Operation.FlatParameters, not_forall, exists_prop] using other
  obtain ⟨_, e, he, i, scatters, _⟩ := ((sent v hv).1 x hx hbody).resolve_left hshape
  exact ⟨q, visits, hr, reads, v, hv, path, other, e, he, i, scatters⟩

end ApiCompiler
