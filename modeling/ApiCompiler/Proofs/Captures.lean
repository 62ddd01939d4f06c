import ApiCompiler.Proofs.Locations
import ApiCompiler.Proofs.Segments

/-!
# Patterns of nested placeholders

A pattern is taken out of a path before the path is passed on, so that below a locator it is known
only from the parameters that are taken over. The lemmas here say what becomes of it on the way: the
deepest placeholder that captures a pattern for a name decides about it, for its own operation and
for every one below, whether a read fails in the end or not.
-/

set_option autoImplicit false

namespace ApiCompiler

open ApiCompiler.Path (Simple Naming Visible capturing readSegment)
open Text (trimChars)

/-! ### Patterns of parameters -/

/-- The first path parameter of a name. -/
def Operation.pathParameter? (op : Operation) (name : String) : Option Parameter :=
  op.parameters.find? fun x => decide (x.name = name ∧ x.location = .path)

namespace Route

/-- The pattern of the first path parameter of a name. -/
def patternOf (name : String) (xs : List Parameter) : Option String :=
  (xs.find? fun x => decide (x.name = name ∧ x.location = .path)).bind Parameter.pattern

variable {name pattern : String} {x z : Parameter} {own above : List Parameter}

theorem of_find?_path {xs : List Parameter}
    (h : xs.find? (fun x => decide (x.name = name ∧ x.location = .path)) = some x) :
    x ∈ xs ∧ x.name = name ∧ x.location = .path := by
  have found := List.find?_some h
  exact ⟨List.mem_of_find?_eq_some h, of_decide_eq_true found⟩

theorem patternOf_cons (x : Parameter) (xs : List Parameter) :
    patternOf name (x :: xs) =
      if x.name = name ∧ x.location = .path then x.pattern else patternOf name xs := by
  unfold patternOf
  rw [List.find?_cons]
  by_cases h : x.name = name ∧ x.location = .path <;> simp [h]

/-- A parameter from above gives its pattern where there is none. -/
theorem patternOf_inheritInto (name : String) (z : Parameter) (own : List Parameter) :
    patternOf name (inheritInto z own) =
      if z.name = name ∧ z.location = .path then (patternOf name own).or z.pattern
      else patternOf name own := by
  induction own with
  | nil => rw [inheritInto, patternOf_cons]; rfl
  | cons y own ih =>
    rw [inheritInto]
    by_cases same : sameParameter y z = true
    · obtain ⟨hname, hloc⟩ := sameParameter_iff.1 same
      rw [if_pos same, patternOf_cons, patternOf_cons, ← hname, ← hloc]
      by_cases here : y.name = name ∧ y.location = .path
      · have there : (complete y z).name = name ∧ (complete y z).location = .path := here
        rw [if_pos there, if_pos here, if_pos here]
        cases hy : y.pattern <;> simp [complete, hy]
      · have there : ¬ ((complete y z).name = name ∧ (complete y z).location = .path) := here
        rw [if_neg there, if_neg here, if_neg here]
    · rw [if_neg same, patternOf_cons, patternOf_cons, ih]
      by_cases here : y.name = name ∧ y.location = .path
      · have other : ¬ (z.name = name ∧ z.location = .path) := fun h =>
          same (sameParameter_iff.2 ⟨here.1.trans h.1.symm, here.2.trans h.2.symm⟩)
        rw [if_pos here, if_neg other, if_pos here]
      · rw [if_neg here, if_neg here]

/-- A pattern that is there is kept. -/
theorem patternOf_inherit_of_own {op : Operation} (h : patternOf name op.parameters = some pattern)
    (above : List Parameter) :
    patternOf name (inherit op above).parameters = some pattern := by
  show patternOf name (above.foldl (fun own z => inheritInto z own) op.parameters) = _
  generalize op.parameters = own at h
  induction above generalizing own with
  | nil => exact h
  | cons z above ih =>
    refine ih _ ?_
    rw [patternOf_inheritInto, h]
    split <;> rfl

/-- Where there is no pattern, the first one from above is taken. -/
theorem patternOf_inherit_of_above {op : Operation} (h : patternOf name op.parameters = none)
    (habove : patternOf name above = some pattern) :
    patternOf name (inherit op above).parameters = some pattern := by
  induction above generalizing op with
  | nil => cases habove
  | cons z above ih =>
    have first : patternOf name (inheritInto z op.parameters) =
        if z.name = name ∧ z.location = .path then z.pattern else none := by
      rw [patternOf_inheritInto, h, Option.none_or]
    have rest : (inherit op (z :: above)).parameters =
        (inherit { op with parameters := inheritInto z op.parameters } above).parameters := rfl
    rw [rest]
    rw [patternOf_cons] at habove
    split at habove <;> rename_i here
    · rw [if_pos here, habove] at first
      exact patternOf_inherit_of_own first above
    · rw [if_neg here] at first
      exact ih first habove

/-- Where nothing has a pattern, that of a template is everywhere under its name. -/
theorem pattern_of_mem_reconcile {op : Operation} (plain : ∀ y ∈ op.parameters, y.pattern = none)
    {template : String} {patterns : Table String}
    (hx : x ∈ (reconcile op template patterns).parameters) :
    x.pattern = patterns.get? x.name := by
  have filled (names : List String) : ∀ op : Operation,
      (∀ y ∈ op.parameters, y.pattern = patterns.get? y.name) →
      ∀ y ∈ (names.foldl (addPlaceholder patterns) op).parameters,
        y.pattern = patterns.get? y.name := by
    induction names with
    | nil => exact fun _ h => h
    | cons name names ih =>
      intro op h
      refine ih _ fun y hy => ?_
      rw [addPlaceholder] at hy
      split at hy
      · exact h y hy
      · rcases List.mem_append.1 hy with hy | hy
        · exact h y hy
        · rw [List.mem_singleton.1 hy]
          rfl
  refine filled _ _ (fun y hy => ?_) x hx
  obtain ⟨z, hz, rfl⟩ := List.mem_map.1 hy
  have none := plain z hz
  rw [placeParameter_name, placeParameter]
  by_cases placed : z.location ≠ .body ∧ z.name ∈ Path.placeholders template
  · rw [if_pos placed]
    cases patterns.get? z.name <;> simp [none]
  · rw [if_neg placed]
    cases patterns.get? z.name <;> simp [none]

end Route

/-! ### Patterns of built operations -/

namespace Run

variable {w : World} {p q : Progress}

theorem classify_pattern {m : Method} {xs : List Parameter} (h : classify w m p = .ok xs q) :
    ∀ x ∈ xs, x.pattern = none := by
  intro x hx
  cases classify_ok h with
  | body _ => rw [List.mem_singleton.1 hx, bodyParameter]
  | form _ _ _ =>
    obtain ⟨e, _, form⟩ := List.mem_filterMap.1 hx
    obtain ⟨_, _, rfl⟩ := Option.map_eq_some_iff.1 form
    rfl
  | folded _ _ => rw [List.mem_singleton.1 hx, bodyParameter]
  | entries _ _ =>
    obtain ⟨i, _, form⟩ := List.mem_filterMap.1 hx
    exact (ImplicitParam.sentAs_of_form form).pattern

/-- No parameter of a built operation has a pattern. -/
theorem build_pattern {m : Method} {op : Operation} (h : build w m p = .ok (some op) q) :
    ∀ x ∈ op.parameters, x.pattern = none := by
  obtain ⟨r, hc⟩ := build_classify h
  exact classify_pattern hc

end Run

/-! ### Ways through locators -/

/-- The path that the nearest locator passes on. -/
def passedPath : List Entry → String
  | [] => ""
  | e :: _ => e.template.text

/-- Every method comes up in scans, below the path and with the parameters that the nearest locator
passes on. -/
def Leads (w : World) : List Entry → Prop
  | [] => True
  | e :: above =>
    e.Arises w ∧ e.descent.path = passedPath above ∧ e.descent.parameters = passedOn above ∧
      Leads w above

/-- What is passed down comes from the locators above. -/
def Descent.Led (w : World) (d : Descent) : Prop :=
  ∃ above, Leads w above ∧ d.path = passedPath above ∧ d.parameters = passedOn above

/-- Whatever has been read, failing or not, a stored operation has a way of locators above it. -/
theorem Run.exists_way {w : World} {p : Progress} (fresh : p.document.operations = [])
    (reads : List (TypeExpr × Bool)) :
    ∀ o ∈ (afterReads w reads p).document.operations,
      ∃ v : Visit, Leads w v.way ∧ o = v.entry.slotted := by
  have allowed : AllowsDescents w (Descent.Led w) fun p q =>
      (∀ o ∈ p.document.operations, ∃ v : Visit, Leads w v.way ∧ o = v.entry.slotted) →
        ∀ o ∈ q.document.operations, ∃ v : Visit, Leads w v.way ∧ o = v.entry.slotted := by
    refine { toAllowsBuilding := allowsBuilding_of_stored, trail := fun _ _ => id, within := ?_,
             below := ?_, store := ?_ }
    · exact fun d s hd => hd
    · rintro e he ⟨above, leads, hpath, hparameters⟩
      exact ⟨e :: above, ⟨he, hpath, hparameters, leads⟩, rfl, rfl⟩
    · rintro e he ⟨above, leads, hpath, hparameters⟩
      exact store_keeps_of_stored ⟨⟨e, above⟩, ⟨he, hpath, hparameters, leads⟩, rfl⟩
  have start (includeHidden : Bool) : Descent.Led w { includeHidden } := ⟨[], trivial, rfl, rfl⟩
  apply afterReads_keeps_of_descents allowed start reads p
  rw [fresh]
  exact fun o ho => absurd ho List.not_mem_nil

/-! ### Fragments -/

namespace Entry

/-- The path that a service and its method declare together. -/
def fragment? (e : Entry) : Option String :=
  match e.method.decl.pathText with
  | .ok path => Path.join e.service.path path ""
  | .error _ => none

/-- The segments of the fragment. -/
def segments (e : Entry) : List (List Char) :=
  e.fragment?.elim [] fun own => Path.solid own.toList

/-- The patterns that the fragment captures. -/
def captured (e : Entry) : Table String :=
  e.fragment?.elim [] fun own => (Path.normalize own).patterns

theorem fragment?_eq {e : Entry} {cls method : Option String} (hcls : e.service.path = cls)
    (hmethod : e.method.decl.pathText = .ok method) :
    e.fragment? = Path.join cls method "" := by
  rw [fragment?, hmethod, hcls]

/-- The fragment of the service, if it has one, starts with a slash. -/
def StartsWithSlash (e : Entry) : Prop :=
  ∀ cls, e.service.path = some cls → cls.toList.head? = some '/'

/-- The segments of the fragment are literal or single placeholders. -/
def IsSimple (e : Entry) : Prop := ∀ s ∈ e.segments, Simple s

variable {w : World} {e : Entry} {ss : List (List Char)}

theorem Arises.path (he : e.Arises w) : ∃ path own raw,
    e.method.decl.pathText = .ok path ∧ e.fragment? = some own ∧
      Path.join e.service.path path "" = some own ∧
      Path.join e.service.path path e.descent.path = some raw ∧
      e.template = Path.normalize raw := by
  have ht := he.template
  unfold Service.template? at ht
  cases hpath : e.method.decl.pathText with
  | error fault => rw [hpath] at ht; cases ht
  | ok path =>
    simp only [hpath] at ht
    obtain ⟨raw, hraw, htemplate⟩ := Option.map_eq_some_iff.1 ht
    obtain ⟨own, hown⟩ := Path.exists_own hraw
    refine ⟨path, own, raw, rfl, ?_, hown, hraw, htemplate.symm⟩
    rw [fragment?, hpath]
    exact hown

/-- Below a visible template, a method has the patterns that its fragment captures. -/
theorem patterns_eq_captured (he : e.Arises w) (hs : e.StartsWithSlash)
    (hv : Visible e.descent.path ss) : e.template.patterns = e.captured := by
  obtain ⟨path, own, raw, -, hfragment, hown, hraw, htemplate⟩ := he.path
  rw [captured, hfragment, htemplate]
  exact Path.patterns_join hs hv hraw hown

/-- With a simple fragment, the template of a method is visible again, and has a placeholder for
each name that is captured. -/
theorem visible_of_simple (he : e.Arises w) (hs : e.StartsWithSlash) (simple : e.IsSimple)
    (hv : Visible e.descent.path ss) :
    (∃ ss', Visible e.template.text ss') ∧
      ∀ s ∈ e.segments, ∀ name pattern, Path.Captures s name pattern →
        name ∈ Path.placeholders e.template.text := by
  obtain ⟨path, own, raw, -, hfragment, hown, hraw, htemplate⟩ := he.path
  unfold IsSimple segments at simple
  unfold segments
  rw [hfragment, Option.elim_some] at simple ⊢
  obtain ⟨ss', hvisible, htext, hshown⟩ := Path.visible_join hs hv hraw hown simple
  rw [htemplate]
  refine ⟨⟨ss', hvisible⟩, fun s hs name pattern hc => ?_⟩
  obtain ⟨-, naming, hne⟩ := (simple s hs).shown_of_captures hc
  have hmem := hshown (name, pattern) ((Path.mem_capturedBy simple).2 ⟨s, hs, hc⟩)
  exact Path.mem_placeholders naming hne htext hmem

/-- A simple fragment captures what its segments capture. -/
theorem captured_of_simple (simple : e.IsSimple) :
    e.captured = Table.ofList (Path.capturedBy e.segments) := by
  unfold IsSimple segments at simple
  unfold captured segments
  cases hfragment : e.fragment? with
  | none => rfl
  | some own =>
    obtain ⟨rest, hrest⟩ : ∃ rest, own.toList = '/' :: rest := by
      unfold fragment? at hfragment
      split at hfragment
      · exact Path.exists_slash hfragment
      · cases hfragment
    rw [hfragment, Option.elim_some, hrest] at simple
    rw [Option.elim_some, Option.elim_some, hrest]
    exact (Path.normalize_of_simple hrest simple).1

end Entry

/-- Below simple fragments, what is passed on is a visible template. -/
theorem visible_of_leads {w : World} {above : List Entry} (h : Leads w above)
    (hs : ∀ e ∈ above, e.StartsWithSlash) (simple : ∀ e ∈ above, e.IsSimple) :
    ∃ ss, Visible (passedPath above) ss := by
  induction above with
  | nil => exact ⟨[], Path.visible_empty⟩
  | cons e above ih =>
    obtain ⟨arises, hpath, -, leads⟩ := h
    obtain ⟨slash, hs⟩ := List.forall_mem_cons.1 hs
    obtain ⟨own, simple⟩ := List.forall_mem_cons.1 simple
    obtain ⟨ss, hv⟩ := ih leads hs simple
    exact (Entry.visible_of_simple arises slash own (hpath ▸ hv)).1

/-! ### Patterns on the way -/

namespace Route

theorem patternOf_reconcile {op : Operation} (plain : ∀ y ∈ op.parameters, y.pattern = none)
    {template name : String} (patterns : Table String) (h : name ∈ Path.placeholders template) :
    patternOf name (reconcile op template patterns).parameters = patterns.get? name := by
  obtain ⟨x, hx, hname, hpath, -⟩ := reconcile_fills op h patterns
  have found : ((reconcile op template patterns).parameters.find?
      fun x => decide (x.name = name ∧ x.location = .path)).isSome :=
    List.find?_isSome.2 ⟨x, hx, by simp [hname, hpath]⟩
  obtain ⟨y, hy⟩ := Option.isSome_iff_exists.1 found
  obtain ⟨hmem, hname, -⟩ := of_find?_path hy
  rw [patternOf, hy, Option.bind_some, pattern_of_mem_reconcile plain hmem, hname]

theorem patternOf_reconcile_of_none {op : Operation}
    (plain : ∀ y ∈ op.parameters, y.pattern = none) (template : String) {name : String}
    {patterns : Table String} (h : patterns.get? name = none) :
    patternOf name (reconcile op template patterns).parameters = none := by
  refine Option.bind_eq_none_iff.2 fun y hy => ?_
  obtain ⟨hmem, hname, -⟩ := of_find?_path hy
  rw [pattern_of_mem_reconcile plain hmem, hname, h]

end Route

namespace Entry

variable {w : World} {e : Entry} {name pattern : String}

theorem Arises.plain (he : e.Arises w) : ∀ y ∈ e.built.parameters, y.pattern = none := by
  obtain ⟨p, q, hb⟩ := he.built
  exact Run.build_pattern hb

/-- A method that captures a pattern has it. -/
theorem patternOf_of_captured (he : e.Arises w)
    (hname : name ∈ Path.placeholders e.template.text)
    (hp : e.template.patterns.get? name = some pattern) :
    Route.patternOf name e.placed.parameters = some pattern := by
  rw [placed, Run.placed_parameters]
  exact Route.patternOf_inherit_of_own
    ((Route.patternOf_reconcile he.plain _ hname).trans hp) e.descent.parameters

/-- A method that captures no pattern takes it over. -/
theorem patternOf_of_above (he : e.Arises w) (hnone : e.template.patterns.get? name = none)
    (habove : Route.patternOf name e.descent.parameters = some pattern) :
    Route.patternOf name e.placed.parameters = some pattern := by
  rw [placed, Run.placed_parameters]
  exact Route.patternOf_inherit_of_above
    (Route.patternOf_reconcile_of_none he.plain e.template.text hnone) habove

end Entry

/-- A pattern is passed on from the last segment that captures it, through all methods below that
capture none for the name. -/
theorem patternOf_passedOn {w : World} {l : Entry} {higher : List Entry} {name pattern : String}
    {before after : List (List Char)} {s : List Char} (hs : l.segments = before ++ s :: after)
    (hc : Path.Captures s name pattern) (hafter : ∀ s' ∈ after, ∀ r, ¬ Path.Captures s' name r) :
    ∀ deeper : List Entry, Leads w (deeper ++ l :: higher) →
      (∀ e ∈ deeper ++ l :: higher, e.StartsWithSlash) →
      (∀ e ∈ deeper.tail ++ l :: higher, e.IsSimple) →
      (∀ e ∈ deeper, ¬ e.captured.has name) →
      Route.patternOf name (passedOn (deeper ++ l :: higher)) = some pattern := by
  intro deeper
  induction deeper with
  | nil =>
    intro leads slash simple _
    obtain ⟨arises, hpath, -, leads⟩ := leads
    obtain ⟨hslash, slash⟩ := List.forall_mem_cons.1 slash
    obtain ⟨hsimple, simple⟩ := List.forall_mem_cons.1 simple
    obtain ⟨ss, hv⟩ := visible_of_leads leads slash simple
    rw [← hpath] at hv
    obtain ⟨-, shown⟩ := Entry.visible_of_simple arises hslash hsimple hv
    refine Entry.patternOf_of_captured arises (shown s (by rw [hs]; simp) name pattern hc) ?_
    rw [Entry.patterns_eq_captured arises hslash hv, Entry.captured_of_simple hsimple, hs]
    exact Path.get?_capturedBy (fun s' hs' => hsimple s' (hs ▸ hs')) hc hafter
  | cons e deeper ih =>
    intro leads slash simple none
    obtain ⟨arises, hpath, hparameters, leads⟩ := leads
    obtain ⟨hslash, slash⟩ := List.forall_mem_cons.1 slash
    obtain ⟨hnone, none⟩ := List.forall_mem_cons.1 none
    obtain ⟨ss, hv⟩ := visible_of_leads leads slash simple
    rw [← hpath] at hv
    refine Entry.patternOf_of_above arises ?_ ?_
    · rw [Entry.patterns_eq_captured arises hslash hv]
      simpa [Table.has] using hnone
    · rw [hparameters]
      refine ih leads slash (fun e he => simple e ?_) none
      rcases List.mem_append.1 he with he | he
      · exact List.mem_append_left _ (List.mem_of_mem_tail he)
      · exact List.mem_append_right _ he

/-- On every way, methods have got what the nearest locator above them passes on. -/
theorem Run.leads_of_scans {w : World} {s : Service} {d : Descent} {above : List Entry}
    {ms : List Method} {p q : Progress} {visits : List Visit} (h : Scans w s d above ms p visits q)
    (hs : ∃ t, w.loadService t = .ok s) (hms : ms ⊆ s.methods) (hpath : d.path = passedPath above)
    (hd : d.parameters = passedOn above) (ha : Leads w above) :
    ∀ v ∈ visits, Leads w v.way := by
  induction h with
  | nil => exact fun v hv => absurd hv List.not_mem_nil
  | unexposed _ hn rest ih => exact ih hs (List.cons_subset.1 hms).2 hpath hd ha
  | hidden ht hi hb rest ih => exact ih hs (List.cons_subset.1 hms).2 hpath hd ha
  | @operation e above ms p q r r' visits ht hi hb hst hsub rest ih =>
    obtain ⟨hm, hms⟩ := List.cons_subset.1 hms
    have here : Leads w (e :: above) := ⟨⟨hs, hm, ht, hi, p, r, hb⟩, hpath, hd, ha⟩
    intro v hv
    rcases List.mem_cons.1 hv with rfl | hv
    · exact here
    · exact ih hs hms hpath hd ha v hv
  | @locator e above ms p q r r₁ r₂ r₃ nested visits t sub ht hi hb hst hl hnew inner hsub rest
      ihInner ihRest =>
    obtain ⟨hm, hms⟩ := List.cons_subset.1 hms
    have here : Leads w (e :: above) := ⟨⟨hs, hm, ht, hi, p, r, hb⟩, hpath, hd, ha⟩
    intro v hv
    rcases List.mem_append.1 hv with hv | hv
    · exact ihInner ⟨t, (load_ok hl).1⟩ (List.Subset.refl _) rfl rfl here v hv
    rcases List.mem_cons.1 hv with rfl | hv
    · exact here
    · exact ihRest hs hms hpath hd ha v hv

/-- All operations that a successful read visits, also those that are replaced later, have a way of
locators above them. -/
theorem Run.leads_of_read {w : World} {t : TypeExpr} {includeHidden : Bool} {p q : Progress}
    {u : Unit} (h : read w t includeHidden p = .ok u q) :
    ∃ visits, Reads w t includeHidden p visits q ∧ ∀ v ∈ visits, Leads w v.way := by
  obtain ⟨visits, reads⟩ := reads_of_ok h
  refine ⟨visits, reads, ?_⟩
  cases reads with
  | skipped hl hs => exact fun v hv => absurd hv List.not_mem_nil
  | scanned hl hs trace =>
    exact leads_of_scans trace ⟨t, (load_ok hl).1⟩ (List.Subset.refl _) rfl rfl trivial

namespace Operation

/-- The path parameter of that name has the pattern. -/
def HasPattern (op : Operation) (name pattern : String) : Prop :=
  ∃ x, op.pathParameter? name = some x ∧ x.pattern = some pattern

variable {op : Operation} {name pattern : String}

theorem hasPattern_iff :
    op.HasPattern name pattern ↔ Route.patternOf name op.parameters = some pattern :=
  Option.bind_eq_some_iff.symm

/-- Where no two parameters have the same name and location, there is no other one of that name. -/
theorem HasPattern.of_distinct (h : op.HasPattern name pattern) (hd : op.DistinctParameters) :
    ∀ x ∈ op.parameters, x.name = name → x.location = .path → x.pattern = some pattern := by
  obtain ⟨y, hy, hpattern⟩ := h
  obtain ⟨hmem, hname, hpath⟩ := Route.of_find?_path hy
  intro x hx hname' hpath'
  have same : x = y := List.inj_on_of_nodup_map hd hx hmem
    (Prod.ext (hname'.trans hname.symm) (hpath'.trans hpath.symm))
  rw [same]
  exact hpattern

end Operation

/-- After any reads, failing ones among them, every stored operation has a way of locators above it,
and so has every operation that a successful read visits. Where the locators on a way have simple
fragments, and the fragments of services start with slashes, a segment that captures a pattern gives
it to the path parameter of its name, in the operation of its own method and in all below it, unless
a later segment of its fragment or a deeper fragment captures one for the name. -/
theorem Run.captured_patterns {w : World} {p : Progress} (fresh : p.document.operations = []) :
    (∀ reads, ∀ o ∈ (afterReads w reads p).document.operations,
      ∃ v : Visit, Leads w v.way ∧ o = v.entry.slotted) ∧
    (∀ t includeHidden u q, read w t includeHidden p = .ok u q →
      ∃ visits, Reads w t includeHidden p visits q ∧ ∀ v ∈ visits, Leads w v.way) ∧
    ∀ v : Visit, Leads w v.way → (∀ e ∈ v.way, e.StartsWithSlash) →
      ∀ deeper l higher, v.way = deeper ++ l :: higher → (∀ e ∈ l :: v.above, e.IsSimple) →
        ∀ before s after name pattern, l.segments = before ++ s :: after →
          Path.Captures s name pattern → (∀ s' ∈ after, ∀ r, ¬ Path.Captures s' name r) →
          (∀ e ∈ deeper, ¬ e.captured.has name) →
            v.entry.operation.HasPattern name pattern ∧
            (v.entry.method.DeclaresDistinct → ∀ x ∈ v.entry.operation.parameters,
              x.name = name → x.location = .path → x.pattern = some pattern) := by
  refine ⟨exists_way fresh, fun t includeHidden u q h => leads_of_read h, ?_⟩
  intro v leads slash deeper l higher hway simple before s after name pattern hs hc hafter none
  have below : ∀ e ∈ deeper.tail ++ l :: higher, e.IsSimple := by
    intro e he
    cases deeper with
    | nil =>
      have habove : v.above = higher := (List.cons.inj hway).2
      exact simple e (habove ▸ he)
    | cons e' deeper =>
      have habove : v.above = deeper ++ l :: higher := (List.cons.inj hway).2
      exact simple e (List.mem_cons_of_mem _ (habove ▸ he))
  have passed : Route.patternOf name (passedOn v.way) = some pattern := by
    rw [hway] at leads slash ⊢
    exact patternOf_passedOn hs hc hafter deeper leads slash below none
  have found : v.entry.operation.HasPattern name pattern := by
    rw [Operation.hasPattern_iff, v.entry.operation_parameters]
    exact passed
  refine ⟨found, fun distinct => found.of_distinct (Entry.operation_distinct leads.1 distinct)⟩

/-- The first method of a service, if its operation can be built below a path: the fragments of the
service and the method, and the template. -/
def World.firstRoute (w : World) (t : TypeExpr) (front : String) :
    Option (Option String × Option String × String) :=
  match w.loadService t with
  | .ok s =>
    match s.methods with
    | m :: _ =>
      match m.decl.pathText, s.template? front m, m.decl.operation, Run.build w m {} with
      | .ok path, some template, some _, .ok (some _) _ => some (s.path, path, template.text)
      | _, _, _, _ => none
    | [] => none
  | .error _ => none

theorem World.firstRoute_leads {w : World} {t : TypeExpr} {above : List Entry} (h : Leads w above)
    {cls method : Option String} {text : String}
    (hr : w.firstRoute t (passedPath above) = some (cls, method, text)) :
    ∃ e, Leads w (e :: above) ∧ e.service.path = cls ∧ e.method.decl.pathText = .ok method ∧
      e.template.text = text := by
  unfold firstRoute at hr
  split at hr
  · rename_i s hs
    split at hr
    · rename_i m _ hm
      split at hr
      · rename_i path template info op q hpath ht hi hb
        simp only [Option.some.injEq, Prod.mk.injEq] at hr
        obtain ⟨rfl, rfl, rfl⟩ := hr
        let d : Descent := { path := passedPath above, parameters := passedOn above }
        refine ⟨⟨s, d, m, template, info, op⟩, ⟨?_, rfl, rfl, h⟩, rfl, hpath, rfl⟩
        exact ⟨⟨t, hs⟩, hm ▸ List.mem_cons_self, ht, hi, {}, q, hb⟩
      · cases hr
    · cases hr
  · cases hr

/-- Comments below posts below the threads of a forum: the id of a thread is a number, the name of a
post has small letters, and a comment asks for the id again. -/
def World.forum : World where
  decls := [
    .cls {
      name := "Comments"
      qualname := "Comments"
      above := [.builtin .object]
      service := some {}
      methods := [("comments", {
        name := "comments"
        marked := true
        path := some (.text "comments/{page}")
        operation := some {}
        arguments := [{
          name := "id"
          annotation := some (.builtin .str)
          params := [{ required := true }] }] })] },
    .cls {
      name := "Posts"
      qualname := "Posts"
      above := [.builtin .object]
      service := some {}
      path := some "/posts"
      methods := [("post", {
        name := "post"
        marked := true
        path := some (.text "/{post:[a-z]+}")
        operation := some {}
        returns := some (.declared 0) })] },
    .cls {
      name := "Threads"
      qualname := "Threads"
      above := [.builtin .object]
      service := some {}
      path := some "/threads"
      methods := [("thread", {
        name := "thread"
        marked := true
        path := some (.text "/{ id : [0-9]{4} }")
        operation := some {}
        returns := some (.declared 1) })] }]
  names := [("Comments", .declared 0), ("Posts", .declared 1), ("Threads", .declared 2)]

/-- The id of a thread and the name of a post have their patterns with the comments. -/
theorem Run.captured_patterns_forum : ∃ v : Visit, Leads World.forum v.way ∧ v.above.length = 2 ∧
    v.entry.template.text = "/threads/{id}/posts/{post}/comments/{page}" ∧
    v.entry.operation.HasPattern "id" "[0-9]{4}" ∧
    v.entry.operation.HasPattern "post" "[a-z]+" := by
  obtain ⟨l, hl, lcls, lmethod, ltext⟩ := World.firstRoute_leads (w := World.forum)
    (t := .declared 2)
    (show Leads World.forum [] from trivial)
    (show _ = some (some "/threads", some "/{ id : [0-9]{4} }", "/threads/{id}") by decide +kernel)
  obtain ⟨k, hk, kcls, kmethod, ktext⟩ := World.firstRoute_leads (t := .declared 1) hl
    (show World.forum.firstRoute _ l.template.text =
      some (some "/posts", some "/{post:[a-z]+}", "/threads/{id}/posts/{post}") by
        rw [ltext]; decide +kernel)
  obtain ⟨e, he, ecls, emethod, etext⟩ := World.firstRoute_leads (t := .declared 0) hk
    (show World.forum.firstRoute _ k.template.text =
      some (none, some "comments/{page}", "/threads/{id}/posts/{post}/comments/{page}") by
        rw [ktext]; decide +kernel)
  have lfragment := Entry.fragment?_eq lcls lmethod
  have kfragment := Entry.fragment?_eq kcls kmethod
  have efragment := Entry.fragment?_eq ecls emethod
  have lsegments : l.segments = ["threads".toList, "{ id : [0-9]{4} }".toList] := by
    rw [Entry.segments, lfragment]
    decide +kernel
  have ksegments : k.segments = ["posts".toList, "{post:[a-z]+}".toList] := by
    rw [Entry.segments, kfragment]
    decide +kernel
  have lsimple : l.IsSimple := by
    rw [Entry.IsSimple, lsegments]
    refine List.forall_mem_cons.2 ⟨.literal (by decide), List.forall_mem_singleton.2 ?_⟩
    exact @Simple.capturing " id ".toList " [0-9]{4} ".toList (by decide) (by decide)
  have ksimple : k.IsSimple := by
    rw [Entry.IsSimple, ksegments]
    refine List.forall_mem_cons.2 ⟨.literal (by decide), List.forall_mem_singleton.2 ?_⟩
    exact @Simple.capturing "post".toList "[a-z]+".toList (by decide) (by decide)
  have slash : ∀ x ∈ [e, k, l], x.StartsWithSlash := by
    have none : e.StartsWithSlash := fun cls hcls => by rw [ecls] at hcls; cases hcls
    have posts : k.StartsWithSlash := fun cls hcls => by
      rw [← Option.some.inj (kcls.symm.trans hcls)]; rfl
    have threads : l.StartsWithSlash := fun cls hcls => by
      rw [← Option.some.inj (lcls.symm.trans hcls)]; rfl
    exact List.forall_mem_cons.2 ⟨none, List.forall_mem_cons.2 ⟨posts,
      List.forall_mem_singleton.2 threads⟩⟩
  have main := (captured_patterns (w := World.forum) (p := {}) rfl).2.2 ⟨e, [k, l]⟩ he slash
  have simple {x : Entry} (hx : x.IsSimple) : ∀ y ∈ [x, k, l], y.IsSimple :=
    List.forall_mem_cons.2
      ⟨hx, List.forall_mem_cons.2 ⟨ksimple, List.forall_mem_singleton.2 lsimple⟩⟩
  have enone : e.captured = [] := by
    rw [Entry.captured, efragment]
    decide +kernel
  have knone : ¬ k.captured.has "id" := by
    rw [Entry.captured, kfragment]
    decide +kernel
  have id := main [e, k] l [] rfl (simple lsimple) ["threads".toList]
    "{ id : [0-9]{4} }".toList [] "id" "[0-9]{4}" lsegments
    ⟨" id ".toList, " [0-9]{4} ".toList, by decide, by decide, by decide, by decide⟩ nofun
    (List.forall_mem_cons.2 ⟨by rw [enone]; decide, List.forall_mem_singleton.2 knone⟩)
  have post := main [e] k [l] rfl (simple ksimple) ["posts".toList] "{post:[a-z]+}".toList []
    "post" "[a-z]+" ksegments
    ⟨"post".toList, "[a-z]+".toList, by decide, by decide, by decide, by decide⟩ nofun
    (List.forall_mem_singleton.2 (by rw [enone]; decide))
  exact ⟨⟨e, [k, l]⟩, he, rfl, etext, id.1, post.1⟩

end ApiCompiler
