import ApiCompiler.Proofs.Endpoints
import ApiCompiler.Proofs.PathParameters

/-!
# Where parameters are sent

Besides path parameters, a stored operation has exactly the parameters that its own method and the
locators above it send outside of their paths, by name and location. A parameter that is named after
a placeholder is therefore in the path unless a locator above sends it somewhere else, under a path
that has no such placeholder; taking over parameters does not move it any more.
-/

set_option autoImplicit false

namespace ApiCompiler

namespace Route

variable {op : Operation} {k : String × Location}

theorem mem_keys_inherit (parameters : List Parameter) :
    k ∈ (inherit op parameters).parameters.map Parameter.key ↔
      k ∈ op.parameters.map Parameter.key ∨ k ∈ parameters.map Parameter.key := by
  show k ∈ (parameters.foldl (fun own z => inheritInto z own) op.parameters).map Parameter.key ↔ _
  generalize op.parameters = own
  induction parameters generalizing own with
  | nil => simp
  | cons z parameters ih =>
    have first : k ∈ (inheritInto z own).map Parameter.key ↔
        k ∈ own.map Parameter.key ∨ k = z.key := by
      rw [keys_inheritInto]
      by_cases hz : z.key ∈ own.map Parameter.key
      · rw [if_pos hz]
        constructor
        · exact .inl
        · rintro (h | rfl)
          · exact h
          · exact hz
      · rw [if_neg hz, List.mem_append, List.mem_singleton]
    rw [List.foldl_cons, ih, first, List.map_cons, List.mem_cons, or_assoc]

/-- A parameter that is there after one from above has been taken over was there before, or is that
one. -/
theorem mem_inheritInto {x z : Parameter} {own : List Parameter} (h : x ∈ inheritInto z own) :
    (∃ y ∈ own, y.key = x.key ∧ y.required = x.required) ∨
      x = z ∧ z.key ∉ own.map Parameter.key := by
  induction own with
  | nil => exact .inr ⟨List.mem_singleton.1 h, List.not_mem_nil⟩
  | cons y own ih =>
    unfold inheritInto at h
    split at h
    · rcases List.mem_cons.1 h with rfl | h
      · exact .inl ⟨y, List.mem_cons_self, rfl, rfl⟩
      · exact .inl ⟨x, List.mem_cons_of_mem _ h, rfl, rfl⟩
    · rename_i other
      rcases List.mem_cons.1 h with rfl | h
      · exact .inl ⟨x, List.mem_cons_self, rfl, rfl⟩
      · rcases ih h with ⟨y', hy', hsame⟩ | ⟨rfl, hnew⟩
        · exact .inl ⟨y', List.mem_cons_of_mem _ hy', hsame⟩
        · refine .inr ⟨rfl, fun hmem => ?_⟩
          rcases List.mem_cons.1 hmem with hkey | hmem
          · obtain ⟨hname, hloc⟩ := Prod.mk.inj hkey
            exact other (sameParameter_iff.2 ⟨hname.symm, hloc.symm⟩)
          · exact hnew hmem

theorem mem_inherit {x : Parameter} {parameters : List Parameter}
    (h : x ∈ (inherit op parameters).parameters) :
    (∃ y ∈ op.parameters, y.key = x.key ∧ y.required = x.required) ∨
      x.key ∉ op.parameters.map Parameter.key := by
  change x ∈ parameters.foldl (fun own z => inheritInto z own) op.parameters at h
  generalize op.parameters = own at h
  induction parameters generalizing own with
  | nil => exact .inl ⟨x, h, rfl, rfl⟩
  | cons z parameters ih =>
    rcases ih _ h with ⟨y, hy, hkey, hrequired⟩ | hnew
    · rcases mem_inheritInto hy with ⟨y', hy', hkey', hrequired'⟩ | ⟨rfl, hnew⟩
      · exact .inl ⟨y', hy', hkey'.trans hkey, hrequired'.trans hrequired⟩
      · exact .inr (hkey ▸ hnew)
    · refine .inr fun hmem => hnew ?_
      rw [keys_inheritInto]
      split
      · exact hmem
      · exact List.mem_append_left _ hmem

theorem placeParameter_location (names : List String) (patterns : Table String) (y : Parameter) :
    (placeParameter names patterns y).location =
      if y.location ≠ .body ∧ y.name ∈ names then .path else y.location := by
  unfold placeParameter
  by_cases h : y.location ≠ .body ∧ y.name ∈ names
  · simp only [if_pos h]
    split <;> rfl
  · simp only [if_neg h]
    split <;> rfl

/-- Outside of the path, reconciling leaves the bodies and what no placeholder is named after. -/
theorem mem_keys_reconcile (hk : k.2 ≠ .path) (template : String) (patterns : Table String) :
    k ∈ (reconcile op template patterns).parameters.map Parameter.key ↔
      k ∈ op.parameters.map Parameter.key ∧
        (k.2 = .body ∨ k.1 ∉ Path.placeholders template) := by
  have added : ∀ (names : List String) (op : Operation),
      k ∈ (names.foldl (addPlaceholder patterns) op).parameters.map Parameter.key ↔
        k ∈ op.parameters.map Parameter.key := by
    intro names
    induction names with
    | nil => exact fun _ => Iff.rfl
    | cons name names ih =>
      intro op
      rw [List.foldl_cons, ih]
      unfold addPlaceholder
      split
      · exact Iff.rfl
      · have other : k ≠ (placeholderParameter patterns name).key := by
          rintro rfl
          exact hk rfl
        simp [other]
  show k ∈ ((Path.placeholders template).foldl (addPlaceholder patterns) _).parameters.map
    Parameter.key ↔ _
  rw [added]
  constructor
  · intro h
    obtain ⟨_, hmem, rfl⟩ := List.mem_map.1 h
    obtain ⟨y, hy, rfl⟩ := List.mem_map.1 hmem
    have hloc := placeParameter_location (Path.placeholders template) patterns y
    have hname := placeParameter_name (Path.placeholders template) patterns y
    by_cases hplaced : y.location ≠ .body ∧ y.name ∈ Path.placeholders template
    · rw [if_pos hplaced] at hloc
      exact absurd hloc hk
    · rw [if_neg hplaced] at hloc
      have hkey : (placeParameter (Path.placeholders template) patterns y).key = y.key :=
        Prod.ext hname hloc
      rw [hkey]
      refine ⟨List.mem_map_of_mem hy, ?_⟩
      show y.location = .body ∨ y.name ∉ Path.placeholders template
      by_cases hbody : y.location = .body
      · exact .inl hbody
      · exact .inr fun hmem => hplaced ⟨hbody, hmem⟩
  · rintro ⟨h, hstays⟩
    obtain ⟨y, hy, rfl⟩ := List.mem_map.1 h
    have hstays : y.location = .body ∨ y.name ∉ Path.placeholders template := hstays
    have hplaced : ¬ (y.location ≠ .body ∧ y.name ∈ Path.placeholders template) := by
      rintro ⟨hbody, hmem⟩
      rcases hstays with h | h
      · exact hbody h
      · exact h hmem
    have hloc := placeParameter_location (Path.placeholders template) patterns y
    rw [if_neg hplaced] at hloc
    have hkey : (placeParameter (Path.placeholders template) patterns y).key = y.key :=
      Prod.ext (placeParameter_name _ _ y) hloc
    rw [← hkey]
    exact List.mem_map_of_mem (List.mem_map_of_mem hy)

end Route

namespace Entry

/-- The method itself has a parameter of that name and location, and its path does not take it. -/
def Sends (e : Entry) (name : String) (loc : Location) : Prop :=
  (name, loc) ∈ e.built.parameters.map Parameter.key ∧
    (loc = .body ∨ name ∉ Path.placeholders e.template.text)

variable {e : Entry} {name : String} {loc : Location}

theorem mem_keys_placed (hloc : loc ≠ .path) :
    (name, loc) ∈ e.placed.parameters.map Parameter.key ↔
      e.Sends name loc ∨ (name, loc) ∈ e.descent.parameters.map Parameter.key := by
  rw [placed, Run.placed_parameters, Route.mem_keys_inherit, Route.mem_keys_reconcile hloc]
  exact Iff.rfl

end Entry

theorem mem_keys_passedOn {above : List Entry} (ha : Linked above) {name : String} {loc : Location}
    (hloc : loc ≠ .path) :
    (name, loc) ∈ (passedOn above).map Parameter.key ↔ ∃ l ∈ above, l.Sends name loc := by
  induction above with
  | nil => simp [passedOn]
  | cons l above ih =>
    obtain ⟨hd, ha⟩ := ha
    show (name, loc) ∈ l.placed.parameters.map Parameter.key ↔ _
    rw [Entry.mem_keys_placed hloc, hd, ih ha, List.exists_mem_cons_iff]

namespace Visit

/-- The method of a stored operation and the locators above it. -/
def way (v : Visit) : List Entry := v.entry :: v.above

/-- Outside of the path, an operation has what the methods on the way to it send. -/
theorem mem_keys_operation {v : Visit} (hv : Linked v.way) {name : String} {loc : Location}
    (hloc : loc ≠ .path) :
    (name, loc) ∈ v.entry.operation.parameters.map Parameter.key ↔
      ∃ e ∈ v.way, e.Sends name loc := by
  rw [v.entry.operation_parameters]
  exact mem_keys_passedOn hv hloc

end Visit

namespace Run

variable {w : World} {p q : Progress}

theorem operations_of_paths {d d' : Document} (h : d'.paths = d.paths) :
    d'.operations = d.operations := by
  unfold Document.operations
  rw [h]

/-- A scan stores operations that it visits and no others. -/
theorem operations_of_scans {s : Service} {d : Descent} {above : List Entry} {ms : List Method}
    {visits : List Visit} (h : Scans w s d above ms p visits q) :
    ∀ o ∈ q.document.operations,
      o ∈ p.document.operations ∨ ∃ v ∈ visits, o = v.entry.slotted := by
  induction h with
  | nil => exact fun o ho => .inl ho
  | unexposed hpath hn rest ih => exact ih
  | hidden ht hi hb rest ih =>
    intro o ho
    rw [← operations_of_paths (paths_of_build hb)]
    exact ih o ho
  | @operation e above ms p q r r' visits ht hi hb hs hst rest ih =>
    intro o ho
    rcases ih o ho with ho | ⟨v, hv, rfl⟩
    · rcases operations_of_store hst ho with rfl | ho
      · exact .inr ⟨⟨e, above⟩, List.mem_cons_self, rfl⟩
      · left
        rw [← operations_of_paths (paths_of_build hb)]
        exact ho
    · exact .inr ⟨v, List.mem_cons_of_mem _ hv, rfl⟩
  | @locator e above ms p q r r₁ r₂ r₃ nested visits t sub ht hi hb hs hl hnew inner hst rest
      ihInner ihRest =>
    intro o ho
    rcases ihRest o ho with ho | ⟨v, hv, rfl⟩
    · rcases operations_of_store hst ho with rfl | ho
      · exact .inr ⟨⟨e, above⟩, List.mem_append_right _ List.mem_cons_self, rfl⟩
      · rcases ihInner o ho with ho | ⟨v, hv, rfl⟩
        · left
          rw [← operations_of_paths (paths_of_build hb), ← operations_of_paths (paths_of_load hl)]
          exact ho
        · exact .inr ⟨v, List.mem_append_left _ hv, rfl⟩
    · exact .inr ⟨v, List.mem_append_right _ (List.mem_cons_of_mem _ hv), rfl⟩

/-- The methods on the way to a stored operation are those of loaded services, and their operations
have been built. -/
theorem arises_of_scans {s : Service} {d : Descent} {above : List Entry} {ms : List Method}
    {visits : List Visit} (h : Scans w s d above ms p visits q)
    (hs : ∃ t, w.loadService t = .ok s) (hms : ms ⊆ s.methods)
    (ha : ∀ e ∈ above, e.Arises w) : ∀ v ∈ visits, ∀ e ∈ v.way, e.Arises w := by
  induction h with
  | nil => exact fun v hv => absurd hv List.not_mem_nil
  | unexposed hpath hn rest ih => exact ih hs (List.cons_subset.1 hms).2 ha
  | hidden ht hi hb rest ih => exact ih hs (List.cons_subset.1 hms).2 ha
  | @operation e above ms p q r r' visits ht hi hb hst hsub rest ih =>
    obtain ⟨hm, hms⟩ := List.cons_subset.1 hms
    have here : e.Arises w := ⟨hs, hm, ht, hi, p, r, hb⟩
    intro v hv
    rcases List.mem_cons.1 hv with rfl | hv
    · exact List.forall_mem_cons.2 ⟨here, ha⟩
    · exact ih hs hms ha v hv
  | @locator e above ms p q r r₁ r₂ r₃ nested visits t sub ht hi hb hst hl hnew inner hsub rest
      ihInner ihRest =>
    obtain ⟨hm, hms⟩ := List.cons_subset.1 hms
    have here : e.Arises w := ⟨hs, hm, ht, hi, p, r, hb⟩
    have way : ∀ e' ∈ e :: above, e'.Arises w := List.forall_mem_cons.2 ⟨here, ha⟩
    intro v hv
    rcases List.mem_append.1 hv with hv | hv
    · exact ihInner ⟨t, (load_ok hl).1⟩ (List.Subset.refl _) way v hv
    rcases List.mem_cons.1 hv with rfl | hv
    · exact way
    · exact ihRest hs hms ha v hv

section Reading

variable {t : TypeExpr} {includeHidden : Bool} {visits : List Visit}

/-- A read stores operations that it visits and no others. -/
theorem operations_of_reads (h : Reads w t includeHidden p visits q) :
    ∀ o ∈ q.document.operations,
      o ∈ p.document.operations ∨ ∃ v ∈ visits, o = v.entry.slotted := by
  cases h with
  | @skipped s r hl hs =>
    intro o ho
    rw [← operations_of_paths (paths_of_load hl)]
    exact .inl ho
  | @scanned s r q visits hl hs trace =>
    intro o ho
    rw [← operations_of_paths (paths_of_load hl)]
    exact operations_of_scans trace o ho

theorem linked_of_reads (h : Reads w t includeHidden p visits q) :
    ∀ v ∈ visits, Linked v.way := by
  cases h with
  | skipped hl hs => exact fun v hv => absurd hv List.not_mem_nil
  | scanned hl hs trace => exact linked_of_scans trace rfl trivial

theorem arises_of_reads (h : Reads w t includeHidden p visits q) :
    ∀ v ∈ visits, ∀ e ∈ v.way, e.Arises w := by
  cases h with
  | skipped hl hs => exact fun v hv => absurd hv List.not_mem_nil
  | scanned hl hs trace =>
    exact arises_of_scans trace ⟨t, (load_ok hl).1⟩ (List.Subset.refl _)
      fun e he => absurd he List.not_mem_nil

end Reading

/-- What is stored at the end of a read: what was stored before, and operations that it has visited,
each with the locators on the way to it. -/
structure Stores (w : World) (t : TypeExpr) (includeHidden : Bool) (p : Progress)
    (visits : List Visit) (q : Progress) : Prop where
  reads : Reads w t includeHidden p visits q
  stored : ∀ o ∈ q.document.operations,
    o ∈ p.document.operations ∨ ∃ v ∈ visits, o = v.entry.slotted
  linked : ∀ v ∈ visits, Linked v.way
  arises : ∀ v ∈ visits, ∀ e ∈ v.way, e.Arises w

theorem stores_of_read {t : TypeExpr} {includeHidden : Bool} {u : Unit}
    (h : read w t includeHidden p = .ok u q) : ∃ visits, Stores w t includeHidden p visits q := by
  obtain ⟨visits, reads⟩ := reads_of_ok h
  exact ⟨visits, reads, operations_of_reads reads, linked_of_reads reads, arises_of_reads reads⟩

end Run

/-- Besides bodies, all parameters of that name are required path parameters. -/
def Operation.Places (op : Operation) (name : String) : Prop :=
  ∀ x ∈ op.parameters, x.name = name → x.location ≠ .body →
    x.location = .path ∧ x.required = true

/-- The method itself sends a parameter of that name neither in the path nor as a body. -/
def Entry.Strays (e : Entry) (name : String) : Prop :=
  ∃ loc, loc ≠ .path ∧ loc ≠ .body ∧ e.Sends name loc

/-- A path parameter that is named after a placeholder is required, wherever it comes from. -/
theorem Entry.required_of_placeholder {e : Entry} {x : Parameter}
    (hx : x ∈ e.operation.parameters) (hpath : x.location = .path)
    (hname : x.name ∈ Path.placeholders e.template.text) : x.required = true := by
  rw [e.operation_parameters, Entry.placed, Run.placed_parameters] at hx
  rcases Route.mem_inherit hx with ⟨y, hy, hkey, hrequired⟩ | hnew
  · obtain ⟨hname', hpath'⟩ := Prod.mk.inj hkey
    rw [← hrequired]
    exact Route.reconcile_requires e.built _ _ y hy (hpath'.trans hpath) (hname' ▸ hname)
  · obtain ⟨y, hy, hname', hpath', _⟩ := Route.reconcile_fills e.built hname e.template.patterns
    have hkey : y.key = x.key := Prod.ext hname' (hpath'.trans hpath.symm)
    exact absurd (hkey ▸ List.mem_map_of_mem hy) hnew

/-- All parameters under the name of a placeholder are in the path, exactly when no locator above
sends one somewhere else. -/
theorem Visit.places_iff {v : Visit} (hv : Linked v.way) {name : String}
    (hname : name ∈ Path.placeholders v.entry.template.text) :
    v.entry.operation.Places name ↔ ∀ l ∈ v.above, ¬ l.Strays name := by
  constructor
  · rintro places l hl ⟨loc, hpath, hbody, hsends⟩
    have found : (name, loc) ∈ v.entry.operation.parameters.map Parameter.key :=
      (mem_keys_operation hv hpath).2 ⟨l, List.mem_cons_of_mem _ hl, hsends⟩
    obtain ⟨x, hx, hkey⟩ := List.mem_map.1 found
    obtain ⟨rfl, rfl⟩ := Prod.mk.inj hkey
    exact hpath (places x hx rfl hbody).1
  · rintro none x hx rfl hbody
    by_cases hpath : x.location = .path
    · exact ⟨hpath, Entry.required_of_placeholder hx hpath hname⟩
    · obtain ⟨e, he, hsends⟩ := (mem_keys_operation hv hpath).1 (List.mem_map_of_mem hx)
      rcases List.mem_cons.1 he with rfl | he
      · rcases hsends.2 with h | h
        · exact absurd h hbody
        · exact absurd hname h
      · exact absurd ⟨x.location, hpath, hbody, hsends⟩ (none e he)

/-- In every read that succeeds, all parameters of an operation that it stores that are named after
a placeholder of its path are required path parameters, bodies apart, exactly when no locator above
the operation itself sends a parameter of that name outside of the path. -/
theorem Run.read_places {w : World} {t : TypeExpr} {includeHidden : Bool} {p q : Progress}
    {u : Unit} (h : read w t includeHidden p = .ok u q) :
    ∃ visits, Reads w t includeHidden p visits q ∧
      (∀ o ∈ q.document.operations,
        o ∈ p.document.operations ∨ ∃ v ∈ visits, o = v.entry.slotted) ∧
      ∀ v ∈ visits, ∀ name ∈ Path.placeholders v.entry.template.text,
        v.entry.operation.Places name ↔ ∀ l ∈ v.above, ¬ l.Strays name := by
  obtain ⟨visits, stores⟩ := stores_of_read h
  refine ⟨visits, stores.reads, stores.stored, fun v hv name hname => ?_⟩
  exact Visit.places_iff (stores.linked v hv) hname

/-- Texts in the languages of a book, where the language is asked for by the method that leads to
them and stands in their path. -/
def World.translations : World where
  decls := [
    .cls {
      name := "Texts"
      qualname := "Texts"
      above := [.builtin .object]
      service := some {}
      methods := [("text", {
        name := "text"
        marked := true
        path := some (.text "/{lang}")
        operation := some {} })] },
    .cls {
      name := "Books"
      qualname := "Books"
      above := [.builtin .object]
      service := some {}
      path := some "/books"
      methods := [("book", {
        name := "book"
        marked := true
        path := some (.text "/{id}")
        operation := some {}
        arguments := [
          { name := "id", annotation := some (.builtin .str), params := [{ required := true }] },
          { name := "lang", annotation := some (.builtin .str), params := [{}] }]
        returns := some (.declared 0) })] }]
  names := [("Texts", .declared 0), ("Books", .declared 1)]

/-- The id of a book is in the path of its texts, and the language is so unless it is sent by the
method that leads to them. -/
theorem Run.read_places_translations :
    ∃ q visits v l, read World.translations (.declared 1) true {} = .ok () q ∧
      Reads World.translations (.declared 1) true {} visits q ∧ v ∈ visits ∧ v.above = [l] ∧
      v.entry.template.text = "/books/{id}/{lang}" ∧
      (v.entry.operation.Places "id" ↔ ¬ l.Strays "id") ∧
      (v.entry.operation.Places "lang" ↔ ¬ l.Strays "lang") := by
  obtain ⟨_, q, hr, _⟩ := observe_some (show (read World.translations (.declared 1) true).observe
    (fun _ => ()) = some () by decide +kernel)
  obtain ⟨visits, reads, _, places⟩ := Run.read_places hr
  obtain ⟨e, l, hv, _, het, _⟩ := visited_of_soleRoutes reads
    (show World.translations.soleRoute (.declared 1) "" =
      some ("/books/{id}", ["id", "lang"], some 0) by decide +kernel)
    (show World.translations.soleRoute (.declared 0) "/books/{id}" =
      some ("/books/{id}/{lang}", [], none) by decide +kernel)
  have sole {P : Entry → Prop} : (∀ x ∈ [l], P x) ↔ P l := by simp
  have named : ∀ name ∈ ["id", "lang"], name ∈ Path.placeholders e.template.text := by
    rw [het]
    decide +kernel
  refine ⟨q, visits, ⟨e, [l]⟩, l, hr, reads, hv, rfl, het, ?_, ?_⟩
  · exact (places _ hv "id" (named "id" (by decide))).trans sole
  · exact (places _ hv "lang" (named "lang" (by decide))).trans sole

/-- The language is a placeholder of the path, and is asked for outside of the path as well. -/
theorem World.translations_strays :
    ∃ q, Run.read translations (.declared 1) false {} = .ok () q ∧
      ∃ o ∈ q.document.operations, o.1 = "/books/{id}/{lang}" ∧
        ∃ x ∈ o.2.2.parameters, x.location ≠ .body ∧ x.name ∈ Path.placeholders o.1 ∧
          ¬ (x.location = .path ∧ x.required = true) := by
  have stray : (Run.read translations (.declared 1) false).observe (fun q =>
      q.document.operations.any fun o => o.1 == "/books/{id}/{lang}" &&
        o.2.2.parameters.any fun x => decide (x.location ≠ .body ∧
          x.name ∈ Path.placeholders o.1 ∧ ¬ (x.location = .path ∧ x.required = true))) =
      some true := by decide +kernel
  obtain ⟨_, q, hr, hq⟩ := Run.observe_some stray
  obtain ⟨o, ho, h⟩ := List.any_eq_true.1 hq
  obtain ⟨hpath, h⟩ := Bool.and_eq_true_iff.1 h
  obtain ⟨x, hx, h⟩ := List.any_eq_true.1 h
  exact ⟨q, hr, o, ho, beq_iff_eq.1 hpath, x, hx, of_decide_eq_true h⟩

end ApiCompiler
