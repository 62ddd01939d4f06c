import ApiCompiler.Proofs.Parameters
import ApiCompiler.Proofs.Slots
import ApiCompiler.Proofs.Traces

/-!
# Parameters from above

An operation takes over the parameters of the locator above it after the placeholders of its own
template have got their parameters. A path parameter of any locator above is therefore found again
below by name and location, but what it says about its values is found again only on a condition,
which is given here exactly: a placeholder of that name is a plain text below.
-/

set_option autoImplicit false

namespace ApiCompiler

/-- What a parameter says about its values. -/
structure Content where
  shape : Schema
  default : Value
  enum : List String
  access : String

def Parameter.content (x : Parameter) : Content :=
  { shape := x.shape, default := x.default, enum := x.enum, access := x.access }

/-- Any text, without a default. -/
def Content.plain : Content :=
  { shape := { kind := .string }, default := .null, enum := [], access := "" }

namespace Route

variable {x y z : Parameter}

theorem sameParameter_iff :
    sameParameter y x = true ↔ y.name = x.name ∧ y.location = x.location := by
  simp [sameParameter]

/-- The contents of the parameters with the name and location of `x`. -/
def contents (x : Parameter) (own : List Parameter) : List Content :=
  (own.filter fun y => sameParameter y x).map Parameter.content

theorem mem_contents {c : Content} {own : List Parameter} :
    c ∈ contents x own ↔ ∃ y ∈ own, y.name = x.name ∧ y.location = x.location ∧ y.content = c := by
  simp [contents, sameParameter_iff, and_assoc]

theorem contents_cons_of_same (h : sameParameter y x = true) (own : List Parameter) :
    contents x (y :: own) = y.content :: contents x own := by
  unfold contents
  rw [List.filter_cons, if_pos h, List.map_cons]

theorem contents_cons_of_other (h : ¬ sameParameter y x = true) (own : List Parameter) :
    contents x (y :: own) = contents x own := by
  unfold contents
  rw [List.filter_cons, if_neg h]

theorem contents_append (own more : List Parameter) :
    contents x (own ++ more) = contents x own ++ contents x more := by
  rw [contents, List.filter_append, List.map_append, contents, contents]

/-- Completing a parameter changes neither its name and location nor what it says about values. -/
theorem contents_complete (q : Parameter) (own : List Parameter) :
    contents x (complete q z :: own) = contents x (q :: own) := by
  by_cases h : sameParameter q x = true
  · rw [contents_cons_of_same h, contents_cons_of_same (y := complete q z) h]
    rfl
  · rw [contents_cons_of_other h, contents_cons_of_other (y := complete q z) h]

theorem contents_inheritInto (own : List Parameter) :
    contents x (inheritInto z own) =
      if sameParameter z x = true ∧ contents x own = [] then [z.content] else contents x own := by
  induction own with
  | nil =>
    by_cases h : sameParameter z x = true
    · rw [if_pos ⟨h, rfl⟩, inheritInto, contents_cons_of_same h]
      rfl
    · rw [if_neg fun h' => h h'.1, inheritInto, contents_cons_of_other h]
  | cons q own ih =>
    unfold inheritInto
    split
    · rename_i hq
      have other : ¬ (sameParameter z x = true ∧ contents x (q :: own) = []) := by
        rintro ⟨hz, hnone⟩
        obtain ⟨hn, hl⟩ := sameParameter_iff.1 hq
        obtain ⟨hn', hl'⟩ := sameParameter_iff.1 hz
        rw [contents_cons_of_same (sameParameter_iff.2 ⟨hn.trans hn', hl.trans hl'⟩)] at hnone
        cases hnone
      rw [contents_complete, if_neg other]
    · rename_i hq
      by_cases h : sameParameter q x = true
      · have other : ¬ sameParameter z x = true := fun hz => by
          obtain ⟨hn, hl⟩ := sameParameter_iff.1 h
          obtain ⟨hn', hl'⟩ := sameParameter_iff.1 hz
          exact hq (sameParameter_iff.2 ⟨hn.trans hn'.symm, hl.trans hl'.symm⟩)
        rw [contents_cons_of_same h, contents_cons_of_same h, ih, if_neg fun h' => other h'.1,
          if_neg fun h' => other h'.1]
      · rw [contents_cons_of_other h, contents_cons_of_other h, ih]

/-- The first of the parameters from above counts, and only where there is no own one. -/
theorem contents_inherit (op : Operation) (parameters : List Parameter) :
    contents x (inherit op parameters).parameters =
      if contents x op.parameters = [] then (contents x parameters).take 1
      else contents x op.parameters := by
  show contents x (parameters.foldl (fun own z => inheritInto z own) op.parameters) = _
  generalize op.parameters = own
  induction parameters generalizing own with
  | nil =>
    rw [List.foldl_nil]
    split
    · assumption
    · rfl
  | cons z parameters ih =>
    rw [List.foldl_cons, ih, contents_inheritInto]
    by_cases h : sameParameter z x = true
    · rw [contents_cons_of_same h]
      by_cases hown : contents x own = [] <;> simp [h, hown]
    · rw [contents_cons_of_other h]
      simp [h]

theorem take_contents (own : List Parameter) :
    (contents x own).take 1 =
      ((own.find? fun y => sameParameter y x).map Parameter.content).toList := by
  induction own with
  | nil => rfl
  | cons y own ih =>
    by_cases h : sameParameter y x = true
    · rw [contents_cons_of_same h, List.find?_cons, h]
      rfl
    · rw [contents_cons_of_other h, List.find?_cons, Bool.eq_false_iff.2 h, ih]

theorem placeParameter_name (names : List String) (patterns : Table String) (y : Parameter) :
    (placeParameter names patterns y).name = y.name := by
  unfold placeParameter
  extract_lets y'
  have hy : y'.name = y.name := by
    by_cases h : y.location ≠ .body ∧ y.name ∈ names <;> simp [y', h]
  split
  · exact hy
  · exact hy

theorem placeParameter_body (names : List String) (patterns : Table String) {y : Parameter}
    (h : y.location = .body) : (placeParameter names patterns y).location = .body := by
  unfold placeParameter
  extract_lets y'
  have hy : y'.location = .body := by simp [y', h]
  split
  · exact hy
  · exact hy

theorem contents_addPlaceholder (hx : x.location = .path) (patterns : Table String)
    (op : Operation) (name : String) :
    contents x (addPlaceholder patterns op name).parameters =
      if name = x.name ∧ contents x op.parameters = [] then [.plain]
      else contents x op.parameters := by
  unfold addPlaceholder
  split
  · rename_i has
    refine (if_neg ?_).symm
    rintro ⟨rfl, hnone⟩
    obtain ⟨y, hy, h⟩ := List.any_eq_true.1 has
    simp only [Option.all_some, Bool.and_eq_true, beq_iff_eq] at h
    have mem : y.content ∈ contents x op.parameters :=
      mem_contents.2 ⟨y, hy, h.1, h.2.trans hx.symm, rfl⟩
    rw [hnone] at mem
    cases mem
  · rename_i has
    rw [contents_append]
    by_cases h : name = x.name
    · have hnone : contents x op.parameters = [] := by
        refine List.eq_nil_iff_forall_not_mem.2 fun c hc => has ?_
        obtain ⟨y, hy, hn, hl, _⟩ := mem_contents.1 hc
        exact List.any_eq_true.2 ⟨y, hy, by simp [hn, hl, h, hx]⟩
      have new : sameParameter (placeholderParameter patterns name) x = true :=
        sameParameter_iff.2 ⟨h, hx.symm⟩
      rw [hnone, if_pos ⟨h, rfl⟩, contents_cons_of_same new]
      rfl
    · have old : ¬ sameParameter (placeholderParameter patterns name) x = true := fun hs =>
        h (sameParameter_iff.1 hs).1
      rw [if_neg fun h' => h h'.1, contents_cons_of_other old]
      exact List.append_nil _

theorem contents_addPlaceholders (hx : x.location = .path) (patterns : Table String)
    (names : List String) (op : Operation) :
    contents x (names.foldl (addPlaceholder patterns) op).parameters =
      if x.name ∈ names ∧ contents x op.parameters = [] then [.plain]
      else contents x op.parameters := by
  induction names generalizing op with
  | nil => simp
  | cons name names ih =>
    rw [List.foldl_cons, ih, contents_addPlaceholder hx]
    by_cases h : name = x.name <;> by_cases hown : contents x op.parameters = [] <;>
      simp [h, hown, eq_comm (a := x.name)]

/-- Where no parameter but a body has the name, the parameter of a placeholder is a plain text. -/
theorem contents_reconcile (hx : x.location = .path) (op : Operation)
    (hn : ∀ y ∈ op.parameters, y.location ≠ .body → y.name ≠ x.name) (template : String)
    (patterns : Table String) :
    contents x (reconcile op template patterns).parameters =
      if x.name ∈ Path.placeholders template then [.plain] else [] := by
  have placed : contents x (op.parameters.map
      (placeParameter (Path.placeholders template) patterns)) = [] := by
    refine List.eq_nil_iff_forall_not_mem.2 fun c hc => ?_
    obtain ⟨_, hmem, hname, hl, _⟩ := mem_contents.1 hc
    obtain ⟨y, hy, rfl⟩ := List.mem_map.1 hmem
    by_cases hbody : y.location = .body
    · rw [placeParameter_body _ _ hbody, hx] at hl
      cases hl
    · rw [placeParameter_name] at hname
      exact hn y hy hbody hname
  show contents x ((Path.placeholders template).foldl (addPlaceholder patterns) _).parameters = _
  rw [contents_addPlaceholders hx]
  simp [placed]

/-- A placeholder has a path parameter. -/
theorem contents_reconcile_ne_nil (hx : x.location = .path) (op : Operation) {template : String}
    (hp : x.name ∈ Path.placeholders template) (patterns : Table String) :
    contents x (reconcile op template patterns).parameters ≠ [] := by
  show contents x ((Path.placeholders template).foldl (addPlaceholder patterns) _).parameters ≠ []
  rw [contents_addPlaceholders hx]
  split
  · exact List.cons_ne_nil _ _
  · rename_i h
    exact fun hnone => h ⟨hp, hnone⟩

end Route

namespace Entry

/-- The method itself has a parameter of that name besides its body. -/
def Declares (e : Entry) (name : String) : Prop :=
  ∃ y ∈ e.built.parameters, y.location ≠ .body ∧ y.name = name

theorem contents_placed {e : Entry} {x : Parameter} (hx : x.location = .path)
    (hn : ¬ e.Declares x.name) :
    Route.contents x e.placed.parameters =
      if x.name ∈ Path.placeholders e.template.text then [.plain]
      else (Route.contents x e.descent.parameters).take 1 := by
  have own := Route.contents_reconcile hx e.built
    (fun y hy hl hname => hn ⟨y, hy, hl, hname⟩) e.template.text e.template.patterns
  rw [placed, Run.placed_parameters, Route.contents_inherit, own]
  split <;> simp

/-- A placeholder has a path parameter. -/
theorem exists_of_placeholder {e : Entry} {name : String}
    (h : name ∈ Path.placeholders e.template.text) :
    ∃ x ∈ e.placed.parameters, x.name = name ∧ x.location = .path := by
  have own := Route.contents_reconcile_ne_nil (x := { name, location := .path }) rfl e.built h
    e.template.patterns
  have found : Route.contents { name, location := .path } e.placed.parameters ≠ [] := by
    rw [placed, Run.placed_parameters, Route.contents_inherit, if_neg own]
    exact own
  obtain ⟨c, hc⟩ := List.exists_mem_of_ne_nil _ found
  obtain ⟨x, hx, hname, hpath, _⟩ := Route.mem_contents.1 hc
  exact ⟨x, hx, hname, hpath⟩

/-- What comes from above is there, by name and location. -/
theorem contents_placed_ne_nil {e : Entry} {x : Parameter}
    (h : Route.contents x e.descent.parameters ≠ []) :
    Route.contents x e.placed.parameters ≠ [] := by
  rw [placed, Run.placed_parameters, Route.contents_inherit]
  split
  · intro hnil
    exact h ((List.take_eq_nil_iff.1 hnil).resolve_left (by decide))
  · assumption

end Entry

/-- The parameters that the nearest locator passes on. -/
def passedOn : List Entry → List Parameter
  | [] => []
  | e :: _ => e.placed.parameters

/-- Every method has got what the nearest locator above it passes on. -/
def Linked : List Entry → Prop
  | [] => True
  | e :: above => e.descent.parameters = passedOn above ∧ Linked above

theorem contents_passedOn_ne_nil {x : Parameter} {l : Entry} {above : List Entry}
    (ha : Linked above) (hl : l ∈ above) (hx : x ∈ l.placed.parameters) :
    Route.contents x (passedOn above) ≠ [] := by
  induction above with
  | nil => cases hl
  | cons e above ih =>
    rcases List.mem_cons.1 hl with rfl | hl
    · exact List.ne_nil_of_mem (Route.mem_contents.2 ⟨x, hx, rfl, rfl, rfl⟩)
    · refine Entry.contents_placed_ne_nil ?_
      rw [ha.1]
      exact ih ha.2 hl

/-- A parameter from above says the same about its values below: as a placeholder it is a plain text
there, and otherwise it is what the nearest locator has first under its name. -/
def Visit.Preserves (v : Visit) (x : Parameter) : Prop :=
  if x.name ∈ Path.placeholders v.entry.template.text then x.content = .plain
  else ((passedOn v.above).find? fun y => Route.sameParameter y x).map Parameter.content =
    some x.content

namespace Run

variable {w : World} {p q : Progress}

/-- A scan passes on to every method what the nearest locator has. -/
theorem linked_of_scans {s : Service} {d : Descent} {above : List Entry} {ms : List Method}
    {visits : List Visit} (h : Scans w s d above ms p visits q)
    (hd : d.parameters = passedOn above) (ha : Linked above) :
    ∀ v ∈ visits, Linked (v.entry :: v.above) := by
  induction h with
  | nil => exact fun v hv => absurd hv List.not_mem_nil
  | unexposed hpath hn rest ih => exact ih hd ha
  | hidden ht hi hb rest ih => exact ih hd ha
  | operation ht hi hb hs hst rest ih =>
    intro v hv
    rcases List.mem_cons.1 hv with rfl | hv
    · exact ⟨hd, ha⟩
    · exact ih hd ha v hv
  | locator ht hi hb hs hl hnew inner hst rest ihInner ihRest =>
    intro v hv
    rcases List.mem_append.1 hv with hv | hv
    · exact ihInner rfl ⟨hd, ha⟩ v hv
    rcases List.mem_cons.1 hv with rfl | hv
    · exact ⟨hd, ha⟩
    · exact ihRest hd ha v hv

/-- In every read that succeeds, a path parameter of a locator is found again, by name and location,
with every operation below that does not declare the name itself, and it says the same about its
values exactly when it is preserved there. -/
theorem read_inherits {t : TypeExpr} {includeHidden : Bool} {u : Unit}
    (h : read w t includeHidden p = .ok u q) :
    ∃ visits, Reads w t includeHidden p visits q ∧
      ∀ v ∈ visits, ∀ l ∈ v.above, ∀ x ∈ l.placed.parameters, x.location = .path →
        ¬ v.entry.Declares x.name →
          (∃ y ∈ v.entry.operation.parameters, y.name = x.name ∧ y.location = x.location) ∧
          ((∃ y ∈ v.entry.operation.parameters,
            y.name = x.name ∧ y.location = x.location ∧ y.content = x.content) ↔
              v.Preserves x) := by
  obtain ⟨visits, reads⟩ := reads_of_ok h
  have linked : ∀ v ∈ visits, Linked (v.entry :: v.above) := by
    cases reads with
    | skipped hl hs => exact fun v hv => absurd hv List.not_mem_nil
    | scanned hl hs trace => exact linked_of_scans trace rfl trivial
  refine ⟨visits, reads, fun v hv l hl x hx hpath hn => ?_⟩
  obtain ⟨hd, above⟩ := linked v hv
  have hops : v.entry.operation.parameters = v.entry.placed.parameters :=
    completed_parameters _ _ _ _
  have found := contents_passedOn_ne_nil above hl hx
  rw [← hd] at found
  refine ⟨?_, ?_⟩
  · obtain ⟨c, hc⟩ := List.exists_mem_of_ne_nil _ (Entry.contents_placed_ne_nil found)
    obtain ⟨y, hy, hname, hloc, _⟩ := Route.mem_contents.1 hc
    exact ⟨y, hops ▸ hy, hname, hloc⟩
  · rw [hops, ← Route.mem_contents, Entry.contents_placed hpath hn, Visit.Preserves]
    split
    · exact List.mem_singleton
    · rw [Route.take_contents, hd, Option.mem_toList]

end Run

/-- Posts below a user, whose id is declared as a number where it is read from the path. -/
def World.accounts : World where
  decls := [
    .cls {
      name := "Posts"
      qualname := "Posts"
      above := [.builtin .object]
      service := some {}
      methods := [("posts", {
        name := "posts"
        marked := true
        path := some (.text "/posts")
        operation := some {} })] },
    .cls {
      name := "Users"
      qualname := "Users"
      above := [.builtin .object]
      service := some {}
      path := some "/users"
      methods := [("user", {
        name := "user"
        marked := true
        path := some (.text "/{id:[0-9]+}")
        operation := some {}
        arguments := [{
          name := "id"
          annotation := some (.builtin .int)
          params := [{ name := "id", required := true }] }]
        returns := some (.declared 0) })] }]
  names := [("Posts", .declared 0), ("Users", .declared 1)]

namespace World

/-- The stored operations, with the names, the locations and the kinds of their parameters. -/
def outline (p : Progress) : List (Slot × List (String × Location × SchemaKind)) :=
  p.document.operations.map fun o =>
    ((o.1, o.2.1), o.2.2.parameters.map fun x => (x.name, x.location, x.shape.kind))

/-- The only method of a service, with its template below a path, the names that it declares and
the declared class that it leads to. -/
def soleRoute (w : World) (t : TypeExpr) (front : String) :
    Option (String × List String × Option Nat) :=
  match w.loadService t with
  | .ok s =>
    match s.methods with
    | [m] => (s.template? front m).bind fun template =>
      if m.isRouted then some (template.text, m.declaredNames, m.subResource.bind fun
        | .declared i => some i
        | _ => none) else none
    | _ => none
  | .error _ => none

theorem soleRoute_some {w : World} {t : TypeExpr} {front text : String} {names : List String}
    {target : Option Nat} (h : w.soleRoute t front = some (text, names, target)) :
    ∃ s m template, w.loadService t = .ok s ∧ m ∈ s.methods ∧
      s.template? front m = some template ∧ m.isRouted = true ∧ template.text = text ∧
      m.declaredNames = names ∧
      ∀ i, target = some i → m.subResource = some (.declared i) := by
  unfold soleRoute at h
  split at h
  · rename_i s hl
    split at h
    · rename_i m hm
      obtain ⟨template, ht, h⟩ := Option.bind_eq_some_iff.1 h
      split at h
      · rename_i hr
        obtain ⟨htext, h⟩ := Prod.mk.inj (Option.some.inj h)
        obtain ⟨hnames, htarget⟩ := Prod.mk.inj h
        refine ⟨s, m, template, hl, hm ▸ List.mem_singleton_self m, ht, hr, htext, hnames,
          fun i hi => ?_⟩
        obtain ⟨u, hu, h⟩ := Option.bind_eq_some_iff.1 (htarget.trans hi)
        split at h
        · rw [hu, Option.some.inj h]
        · cases h
      · cases h
    · cases h
  · cases h

end World

/-- Where a service and the one that it leads to have one method each, both are visited. -/
theorem Run.visited_of_soleRoutes {w : World} {t : TypeExpr} {i : Nat} {text text' : String}
    {names names' : List String} {target : Option Nat} {q : Progress} {visits : List Visit}
    (h : Reads w t true {} visits q) (outer : w.soleRoute t "" = some (text, names, some i))
    (inner : w.soleRoute (.declared i) text = some (text', names', target)) :
    ∃ e l, ⟨e, [l]⟩ ∈ visits ∧ l.template.text = text ∧ e.template.text = text' ∧
      e.method.declaredNames = names' ∧ ∃ r r', build w e.method r = .ok (some e.built) r' := by
  obtain ⟨s, m, template, hl, hm, ht, routed, htext, _, leads⟩ := World.soleRoute_some outer
  obtain ⟨s', m', template', hl', hm', ht', routed', htext', hnames, _⟩ :=
    World.soleRoute_some inner
  have trace : ∃ p r, Scans w s (Descent.within { includeHidden := true } s) [] s.methods p visits
      r := by
    cases h with
    | skipped hload hs => simp [Descent.skips] at hs
    | scanned hload hs trace =>
      obtain rfl := Except.ok.inj (hl.symm.trans (load_ok hload).1)
      exact ⟨_, _, trace⟩
  obtain ⟨p, r, trace⟩ := trace
  obtain ⟨l, _, _, _, _, hlt, _, below⟩ := visited_of_scans trace hm ht routed
  obtain ⟨sub, nested, _, _, hsub, scans, hnested⟩ := below _ (leads i rfl)
  obtain rfl : s' = sub := Except.ok.inj (hl'.symm.trans hsub)
  have front : (l.below.within s').path = text := by
    rw [← htext, ← hlt]
    rfl
  obtain ⟨e, r, r', hv, rfl, rfl, hb, _⟩ := visited_of_scans scans hm' (front.symm ▸ ht') routed'
  exact ⟨e, l, hnested hv, by rw [hlt, htext], htext', hnames, r, r', hb⟩

/-- With the id of a user, the condition is that it is a plain text, which it is not. -/
theorem Run.read_inherits_accounts :
    ∃ q visits v l x, read World.accounts (.declared 1) true {} = .ok () q ∧
      Reads World.accounts (.declared 1) true {} visits q ∧ v ∈ visits ∧ l ∈ v.above ∧
      x ∈ l.placed.parameters ∧ x.name = "id" ∧ x.location = .path ∧
      ¬ v.entry.Declares x.name ∧
      (∃ y ∈ v.entry.operation.parameters, y.name = x.name ∧ y.location = x.location) ∧
      ((∃ y ∈ v.entry.operation.parameters,
        y.name = x.name ∧ y.location = x.location ∧ y.content = x.content) ↔
          x.content = .plain) := by
  obtain ⟨_, q, hr, _⟩ := observe_some (show (read World.accounts (.declared 1) true).observe
    (fun _ => ()) = some () by decide +kernel)
  obtain ⟨visits, reads, inherits⟩ := Run.read_inherits hr
  obtain ⟨e, l, hv, hlt, het, hnames, _, _, hb⟩ := visited_of_soleRoutes reads
    (show World.accounts.soleRoute (.declared 1) "" = some ("/users/{id}", ["id"], some 0) by
      decide +kernel)
    (show World.accounts.soleRoute (.declared 0) "/users/{id}" =
      some ("/users/{id}/posts", [], none) by decide +kernel)
  obtain ⟨x, hx, hname, hpath⟩ := Entry.exists_of_placeholder (e := l)
    (show "id" ∈ Path.placeholders l.template.text by rw [hlt]; decide +kernel)
  have undeclared : ¬ e.Declares x.name := by
    rintro ⟨y, hy, hbody, hname⟩
    have declared := build_names hb y hy hbody
    rw [hnames] at declared
    cases declared
  have inherited := inherits _ hv l List.mem_cons_self x hx hpath undeclared
  have here : x.name ∈ Path.placeholders e.template.text := by
    rw [hname, het]
    decide +kernel
  rw [Visit.Preserves, if_pos here] at inherited
  exact ⟨q, visits, ⟨e, [l]⟩, l, x, hr, reads, hv, List.mem_cons_self, hx, hname, hpath,
    undeclared, inherited⟩

/-- Below a user whose id is a number, the operation of a method without any parameter has a text
for it. -/
theorem World.accounts_outline :
    (∃ q, Run.read accounts (.declared 1) false {} = .ok () q ∧ outline q =
      [(("/users/{id}/posts", "post"), [("id", .path, .string)]),
        (("/users/{id}", "post"), [("id", .path, .integer)])]) ∧
    ∀ s, accounts.loadService (.declared 0) = .ok s → ∀ m ∈ s.methods, m.declaredNames = [] := by
  refine ⟨?_, fun s hs m hm => ?_⟩
  · obtain ⟨_, q, hr, hq⟩ := Run.observe_some (show (Run.read accounts (.declared 1) false).observe
      outline = some [(("/users/{id}/posts", "post"), [("id", .path, .string)]),
        (("/users/{id}", "post"), [("id", .path, .integer)])] by decide +kernel)
    exact ⟨q, hr, hq⟩
  · have names : (accounts.loadService (.declared 0)).toOption.map
        (fun s => s.methods.all fun m => m.declaredNames == []) = some true := by decide +kernel
    rw [hs] at names
    exact beq_iff_eq.1 (List.all_eq_true.1 (Option.some.inj names) m hm)

end ApiCompiler
