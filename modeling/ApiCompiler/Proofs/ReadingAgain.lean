import ApiCompiler.Proofs.Endpoints
import ApiCompiler.Proofs.Listings

/-!
# Reading a service again

What a scan leaves in the document besides definitions is what its trace stores, one operation after
the other. Storing the same operations again leaves paths, tags and security schemes as they are,
and so does the whole read where contributors share no name.
-/

set_option autoImplicit false

namespace ApiCompiler

/-! ### Writing again -/

section Names

variable {names more : List String}

theorem foldl_addName_of_subset (h : ∀ n ∈ more, n ≠ "" → n ∈ names) :
    more.foldl addName names = names := by
  induction more with
  | nil => rfl
  | cons n more ih =>
    have here : addName names n = names :=
      if_pos (or_iff_not_imp_left.2 (h n List.mem_cons_self))
    rw [List.foldl_cons, here]
    exact ih fun m hm => h m (List.mem_cons_of_mem _ hm)

/-- Names that have been added are there. -/
theorem foldl_addName_again : more.foldl addName (more.foldl addName names) =
    more.foldl addName names :=
  foldl_addName_of_subset fun _ hn hne => mem_foldl_addName.2 (.inr ⟨hn, hne⟩)

end Names

namespace Slot

variable {α : Type}

/-- Writes that are made again leave what they have left before. -/
theorem writeAll_again {t : Table (Table α)} (ht : t.Distinct)
    (hu : ∀ outer, ((t.get? outer).getD []).Distinct) (writes : List (Slot × α)) :
    writeAll (writeAll t writes) writes = writeAll t writes := by
  have hkeys : (writeAll (writeAll t writes) writes).keys = (writeAll t writes).keys := by
    rw [keys_writeAll]
    refine Table.foldl_addKey_of_subset fun k hk => ?_
    rw [keys_writeAll]
    exact Table.mem_foldl_addKey.2 (.inr hk)
  refine (distinct_writeAll writes (distinct_writeAll writes ht)).ext hkeys fun outer hkey => ?_
  have inner : ((writeAll (writeAll t writes) writes).get? outer).getD [] =
      ((writeAll t writes).get? outer).getD [] := by
    rw [get?_writeAll, get?_writeAll, (hu outer).merge_again]
  obtain ⟨a, ha⟩ := Option.isSome_iff_exists.1 (Table.has_iff_mem_keys.2 hkey)
  obtain ⟨b, hb⟩ := Option.isSome_iff_exists.1 (Table.has_iff_mem_keys.2 (hkeys ▸ hkey))
  rw [ha, hb] at inner ⊢
  exact congrArg some inner

end Slot

namespace Run

variable {w : World} {p q : Progress}

/-- The tags that a scan leaves in the document, in order. -/
def tagsOf (visits : List Visit) : List String :=
  visits.flatMap fun v => v.entry.info.tags ++ v.entry.descent.tags

/-- The security schemes that a scan leaves in the document, in order. -/
def schemesIn (visits : List Visit) : List String :=
  visits.flatMap fun v => v.entry.operation.security

/-- What building leaves alone is made by the operations that a scan stores, one after the other. -/
theorem component_of_scans {γ : Type} (g : Document → γ) (step : γ → Visit → γ)
    (hb : ∀ d definitions, g { d with definitions } = g d)
    (hst : ∀ ⦃v : Visit⦄ ⦃p q⦄, v.entry.store p = .ok () q →
      g q.document = step (g p.document) v)
    {s : Service} {d : Descent} {above : List Entry} {ms : List Method} {visits : List Visit}
    (h : Scans w s d above ms p visits q) : g q.document = visits.foldl step (g p.document) := by
  have built {m : Method} {a : Option Operation} {p q : Progress} (h : build w m p = .ok a q) :
      g q.document = g p.document :=
    (build_keeps (allowsBuilding_of_eq (fun p => g p.document) (fun _ _ => rfl) (fun _ _ => rfl)
      fun p definitions => hb p.document definitions) w m).of_ok h
  induction h with
  | nil => rfl
  | unexposed hpath hn rest ih => exact ih
  | hidden ht hi hbuild rest ih => rw [ih, built hbuild]
  | @operation e above ms p q r r' visits ht hi hbuild hs hstore rest ih =>
    rw [ih, List.foldl_cons, hst (v := ⟨e, above⟩) hstore, built hbuild]
  | @locator e above ms p q r r₁ r₂ r₃ nested visits t sub ht hi hbuild hs hl hnew inner hstore rest
      ihInner ihRest =>
    obtain ⟨_, rfl⟩ := load_ok hl
    have stored : g r₃.document = step (g r₂.document) ⟨e, above⟩ :=
      hst (v := ⟨e, above⟩) (p := r₂.leave) hstore
    have inside : g r₂.document = nested.foldl step (g p.document) := by
      rw [← built hbuild]
      exact ihInner
    rw [ihRest, List.foldl_append, List.foldl_cons, stored, inside]

theorem tags_of_scans {s : Service} {d : Descent} {above : List Entry} {ms : List Method}
    {visits : List Visit} (h : Scans w s d above ms p visits q) :
    q.document.tags = (tagsOf visits).foldl addName p.document.tags := by
  rw [tagsOf, List.foldl_flatMap]
  exact component_of_scans Document.tags _ (fun _ _ => rfl) (fun _ _ _ h => (store_names h).1) h

theorem schemes_of_scans {s : Service} {d : Descent} {above : List Entry} {ms : List Method}
    {visits : List Visit} (h : Scans w s d above ms p visits q) :
    q.document.securitySchemes = (schemesIn visits).foldl addName p.document.securitySchemes := by
  rw [schemesIn, List.foldl_flatMap]
  exact component_of_scans Document.securitySchemes _ (fun _ _ => rfl)
    (fun _ _ _ h => (store_names h).2) h

/-- What a read leaves in the document besides definitions. -/
theorem document_of_reads {t : TypeExpr} {includeHidden : Bool} {visits : List Visit}
    (h : Reads w t includeHidden p visits q) :
    q.document.paths = Slot.writeAll p.document.paths (writes visits) ∧
      q.document.tags = (tagsOf visits).foldl addName p.document.tags ∧
      q.document.securitySchemes =
        (schemesIn visits).foldl addName p.document.securitySchemes := by
  cases h with
  | skipped hl _ =>
    obtain ⟨_, rfl⟩ := load_ok hl
    exact ⟨rfl, rfl, rfl⟩
  | scanned hl _ trace =>
    obtain ⟨_, rfl⟩ := load_ok hl
    have paths := paths_of_scans trace
    have tags := tags_of_scans trace
    have schemes := schemes_of_scans trace
    exact ⟨paths, tags, schemes⟩

/-- The state that a scanner with a fresh resolver and an empty document starts from. -/
theorem coherent_start {o : Overrides} {S : Method → Prop}
    (ho : ∀ e ∈ o, e.2.references = []) :
    Progress.Coherent w o S { registry := { overrides := o } } where
  owned := .start
  faithful _ := .start
  sound := ⟨ho, nofun, nofun⟩
  idle := rfl
  distinct := Table.distinct_nil
  means := nofun

/-- Reading again is the identity: a service that has been read by a fresh scanner is read by it
again without an error, and the document stays as it is, with paths, definitions, tags and security
schemes in their order. It is assumed that overrides refer to no models, that among the object types
that resolution comes to, the request types and the methods no two contribute a definition of one
name, and that nothing else contributes one that has the simple name of a request type, also where
the arguments of that are sent as form parameters. -/
theorem read_again {t : TypeExpr} {includeHidden : Bool} {o : Overrides}
    (ho : ∀ e ∈ o, e.2.references = []) (apart : w.Apart o (w.ComesUp (· = t) includeHidden))
    (h : read w t includeHidden { registry := { overrides := o } } = .ok () q) :
    ∃ r, read w t includeHidden q = .ok () r ∧ r.document = q.document := by
  obtain ⟨visits, reads⟩ := reads_of_ok h
  have redone := reads_redone apart reads (fun _ h => h) (coherent_start ho) rfl
  have comparable : q.Comparable w o (w.ComesUp (· = t) includeHidden) q := .inl (.refl q)
  rcases redone.again redone.coherent redone.trail comparable with
    ⟨_, r, hr, attains, _, _, reads'⟩ | ⟨hnot, _⟩
  · obtain ⟨hpaths, htags, hschemes⟩ := document_of_reads reads
    obtain ⟨hpaths', htags', hschemes'⟩ := document_of_reads reads'
    have definitions : q.document.definitions = r.document.definitions :=
      Table.eq_of_prefix attains.advances.definitions attains.coherent.distinct
        (attains.within (.refl _) (.refl _))
    have paths : r.document.paths = q.document.paths := by
      rw [hpaths', hpaths]
      exact Slot.writeAll_again Table.distinct_nil (fun _ => Table.distinct_nil) _
    have tags : r.document.tags = q.document.tags := by
      rw [htags', htags, foldl_addName_again]
    have schemes : r.document.securitySchemes = q.document.securitySchemes := by
      rw [hschemes', hschemes, foldl_addName_again]
    refine ⟨r, hr, ?_⟩
    calc r.document
        = ⟨r.document.paths, r.document.definitions, r.document.tags,
            r.document.securitySchemes⟩ := rfl
      _ = q.document := by rw [paths, ← definitions, tags, schemes]
  · exact absurd (.refl q) hnot

end Run

/-- Nodes and trees that refer to each other. A service of nodes leads to a service of trees, which
also plants them. -/
def World.nursery : World where
  decls := [
    .cls {
      name := "Node"
      qualname := "Node"
      above := [.builtin .object]
      annotations := [("tree", .declared 1)] },
    .cls {
      name := "Tree"
      qualname := "Tree"
      above := [.builtin .object]
      annotations := [("root", .declared 0), ("height", .builtin .int)] },
    .cls {
      name := "Trees"
      qualname := "Trees"
      above := [.builtin .object]
      service := some { tags := ["trees"] }
      path := some "/trees"
      methods := [
        ("first", {
          name := "first"
          marked := true
          path := some (.text "/first")
          operation := some { response := .declared 1 } }),
        ("plant", {
          name := "plant"
          marked := true
          operation := some {}
          arguments := [{
            name := "tree"
            annotation := some (.declared 1)
            params := [{ required := true }] }] })] },
    .cls {
      name := "Nodes"
      qualname := "Nodes"
      above := [.builtin .object]
      service := some {}
      path := some "/nodes"
      methods := [
        ("node", {
          name := "node"
          marked := true
          operation := some { response := .declared 0 } }),
        ("trees", {
          name := "trees"
          marked := true
          path := some (.text "/all")
          operation := some {}
          returns := some (.declared 2) })] }]
  names := [("Node", .declared 0), ("Tree", .declared 1), ("Trees", .declared 2),
    ("Nodes", .declared 3)]

theorem World.nursery_apart (roots : TypeExpr → Prop) (includeHidden : Bool) :
    nursery.Apart [] (nursery.ComesUp roots includeHidden) :=
  apart_of_nodup [.declared 0, .declared 1, .builtin .int] (by decide +kernel)
    (fun _ hm => hm.mem_allMethods) (by decide +kernel) (by decide +kernel)

theorem Run.read_again_nursery :
    ∃ q r, read World.nursery (.declared 3) false {} = .ok () q ∧
      q.document.definitions.keys = ["app.Node", "app.Tree", "Trees_plant"] ∧
      q.document.operations.map (fun e => e.1) =
        ["/nodes", "/nodes/all/trees/first", "/nodes/all/trees", "/nodes/all"] ∧
      read World.nursery (.declared 3) false q = .ok () r ∧ r.document = q.document := by
  have seen : (read World.nursery (.declared 3) false).observe (fun q =>
      (q.document.definitions.keys, q.document.operations.map fun e => e.1)) =
        some (["app.Node", "app.Tree", "Trees_plant"],
          ["/nodes", "/nodes/all/trees/first", "/nodes/all/trees", "/nodes/all"]) := by
    decide +kernel
  obtain ⟨_, q, hq, hseen⟩ := observe_some seen
  obtain ⟨hdefinitions, hoperations⟩ := Prod.mk.inj hseen
  obtain ⟨r, hr, hsame⟩ := read_again (fun _ => List.not_mem_nil.elim)
    (World.nursery_apart _ _) hq
  exact ⟨q, r, hq, hdefinitions, hoperations, hr, hsame⟩

/-- No two contributors share a name, and no two request types do. -/
structure World.ContributorsDiffer (w : World) (o : Overrides) (S : Method → Prop) : Prop where
  names : ∀ ⦃c c' : Contributor⦄ ⦃name : String⦄, w.Contributes o S c name →
    w.Contributes o S c' name → c = c'
  requests : ∀ ⦃m m' : Method⦄ ⦃body body' : RequestBody⦄, S m → S m' →
    m.requestBody = some body → m'.requestBody = some body' → body.name = body'.name → body = body'

/-- A search for pets, whose request type has a name and is sent as a form, and a service of pets
in another class, whose method of that name sends an owner. The search leads to the pets. -/
def World.pets : World where
  decls := [
    .cls {
      name := "Pets_lookup"
      qualname := "Pets_lookup"
      above := [.builtin .object]
      methods := [("named", {
        name := "named"
        creator := true
        leads := false
        arguments := [{
          name := "name"
          annotation := some (.builtin .str)
          params := [{ required := true }] }] })] },
    .cls {
      name := "Owner"
      qualname := "Owner"
      above := [.builtin .object]
      annotations := [("name", .builtin .str)] },
    .cls {
      name := "Pets"
      qualname := "Home.Pets"
      above := [.builtin .object]
      service := some {}
      methods := [("lookup", {
        name := "lookup"
        marked := true
        path := some (.text "/pets")
        operation := some {}
        arguments := [{
          name := "owner"
          annotation := some (.declared 1)
          params := [{ required := true }] }] })] },
    .cls {
      name := "Search"
      qualname := "Search"
      above := [.builtin .object]
      service := some {}
      methods := [
        ("search", {
          name := "search"
          marked := true
          path := some (.text "/search")
          operation := some { request := .declared 0 } }),
        ("home", {
          name := "home"
          marked := true
          path := some (.text "/home")
          operation := some {}
          returns := some (.declared 2) })] }]
  names := [("Pets_lookup", .declared 0), ("Owner", .declared 1), ("Search", .declared 3)]

/-- The request type of the search contributes nothing, so that the contributors of the world
differ. -/
theorem World.pets_contributorsDiffer (roots : TypeExpr → Prop) (includeHidden : Bool) :
    pets.ContributorsDiffer [] (pets.ComesUp roots includeHidden) where
  names _ _ _ h h' := Contributes.unique_of_nodup [.declared 1, .builtin .str]
    (by decide +kernel) (fun _ hm => hm.mem_allMethods) (by decide +kernel) h h'
  requests m m' body body' hm hm' hb hb' _ := by
    have sole : (pets.allMethods.filterMap Method.requestBody).length = 1 := by decide +kernel
    obtain ⟨only, honly⟩ := List.length_eq_one_iff.1 sole
    have found {m : Method} {body : RequestBody}
        (hm : pets.ComesUp roots includeHidden m) (hb : m.requestBody = some body) :
        body = only := by
      have mem := List.mem_filterMap.2 ⟨m, hm.mem_allMethods, hb⟩
      rw [honly] at mem
      exact List.mem_singleton.1 mem
    rw [found hm hb, found hm' hb']

/-- The search is read without an error before the pets are, and not again after them: the name of
its request type stands for the body that an owner is sent in. -/
theorem World.pets_refused :
    pets.ContributorsDiffer [] (pets.ComesUp (· = .declared 3) false) ∧
      ∃ q r, Run.read pets (.declared 3) false {} = .ok () q ∧
        Run.read pets (.declared 3) false q =
          .error (.modelNameTaken "Pets_lookup" "app.Home.Pets_lookup" "app.Pets_lookup") r := by
  refine ⟨pets_contributorsDiffer _ _, ?_⟩
  have twice : (match Run.read pets (.declared 3) false {} with
      | .error _ _ => none
      | .ok _ q => match Run.read pets (.declared 3) false q with
        | .error (.modelNameTaken name existing reference) _ => some (name, existing, reference)
        | _ => none) =
      some ("Pets_lookup", "app.Home.Pets_lookup", "app.Pets_lookup") := by decide +kernel
  cases hq : Run.read pets (.declared 3) false {} with
  | error e q => rw [hq] at twice; cases twice
  | ok u q =>
    rw [hq] at twice
    cases hr : Run.read pets (.declared 3) false q with
    | ok u r => simp only [hr] at twice; cases twice
    | error e r =>
      simp only [hr] at twice
      cases e with
      | modelNameTaken name existing reference =>
        obtain ⟨rfl, rfl, rfl⟩ := by simpa using Option.some.inj twice
        exact ⟨q, r, rfl, hr⟩
      | _ => cases twice

end ApiCompiler
