import ApiCompiler.Proofs.CrossListing
import ApiCompiler.Proofs.FirstOccurrences
import ApiCompiler.Proofs.Locations
import ApiCompiler.Proofs.ReadingAgain

/-!
# Tags along locators

A service hands the tags that it has been handed, followed by its own, to its methods, and they hand
them on to the services that they lead to; each time doubles are left out. An operation starts with
its own tags. In the end these are the first occurrences in one list: the tags of the operation, and
then those that the services on the way to it declare, from the one that is read on.
-/

set_option autoImplicit false

namespace ApiCompiler

/-- The tags that a service declares: the explicit ones, or else its value without slashes. -/
def ServiceInfo.declaredTags (s : ServiceInfo) : List String :=
  let explicit := s.tags.filter (· ≠ "")
  if explicit = [] then [String.ofList (s.value.toList.filter (· != '/'))].filter (· ≠ "")
  else explicit

theorem ServiceInfo.tagNames_eq (s : ServiceInfo) : s.tagNames = s.declaredTags.eraseDups := by
  unfold tagNames declaredTags
  cases h : s.tags.filter (· ≠ "") with
  | nil =>
    rw [if_pos rfl]
    generalize String.ofList (s.value.toList.filter (· != '/')) = derived
    by_cases hd : derived = "" <;> simp [hd, List.eraseDups_cons]
  | cons tag tags => exact distinctNames_eq (tag :: tags)

theorem ServiceInfo.ne_of_mem_declaredTags {s : ServiceInfo} {tag : String}
    (h : tag ∈ s.declaredTags) : tag ≠ "" := by
  unfold declaredTags at h
  simp only at h
  split at h <;> exact of_decide_eq_true (List.mem_filter.1 h).2

/-- The service that methods on the way below are those of: the one that is read, or one that the
nearest locator leads to. -/
def EntersFrom (w : World) (t : TypeExpr) (s : Service) : List Entry → Prop
  | [] => w.loadService t = .ok s
  | l :: _ => ∃ u, l.method.subResource = some u ∧ w.loadService u = .ok s

/-- A chain of exposed methods from the service that is read on, the last one first, each of them a
locator of the service that the next one belongs to. -/
def ChainFrom (w : World) (t : TypeExpr) : List Entry → Prop
  | [] => True
  | e :: above => e.Arises w ∧ EntersFrom w t e.service above ∧ ChainFrom w t above

/-- The tags that the services on a way declare, the first service first. -/
def declaredOn (way : List Entry) : List String :=
  way.reverse.flatMap fun e => e.service.info.declaredTags

theorem ne_of_mem_declaredOn {way : List Entry} {tag : String} (h : tag ∈ declaredOn way) :
    tag ≠ "" := by
  obtain ⟨e, _, he⟩ := List.mem_flatMap.1 h
  exact ServiceInfo.ne_of_mem_declaredTags he

/-- A service adds its tags to those that it has been handed. -/
theorem Descent.within_tags (d : Descent) (s : Service) {declared : List String}
    (h : d.tags = declared.eraseDups) :
    (d.within s).tags = (declared ++ s.info.declaredTags).eraseDups := by
  show distinctNames (d.tags ++ s.info.tagNames) = _
  rw [distinctNames_eq, h, ServiceInfo.tagNames_eq, eraseDups_append_eraseDups,
    eraseDups_eraseDups_append]

/-- A method with what the services on the way to it have handed down. -/
def Entry.Tagged (above : List Entry) (e : Entry) : Prop :=
  e.descent.tags = (declaredOn (e :: above)).eraseDups

theorem declaredOn_cons (e : Entry) (above : List Entry) :
    declaredOn (e :: above) = declaredOn above ++ e.service.info.declaredTags := by
  simp [declaredOn]

/-- A stored operation has its own tags and those that it has been handed. -/
theorem Entry.operation_tags {w : World} {e : Entry} {above : List Entry} (he : e.Arises w)
    (ht : e.Tagged above) :
    e.operation.tags =
      (e.info.tags.filter (· ≠ "") ++ declaredOn (e :: above)).eraseDups := by
  obtain ⟨p, q, hb⟩ := he.built
  have none := (Run.build_lists hb).2.1
  have handed : e.descent.tags.filter (· ≠ "") = e.descent.tags := by
    rw [List.filter_eq_self]
    intro tag htag
    rw [ht, List.mem_eraseDups] at htag
    exact decide_eq_true (ne_of_mem_declaredOn htag)
  rw [Entry.operation, Entry.placed, Run.placed_eq, Run.completed_eq]
  show e.descent.tags.foldl addName (e.info.tags.foldl addName e.built.tags) = _
  rw [none, foldl_addName_eq, foldl_addName_eq, handed, ← List.foldl_append,
    Table.foldl_addKey_nil, ht, eraseDups_append_eraseDups]

namespace Run

variable {w : World} {t : TypeExpr} {p q : Progress}

/-- Along a scan, every method stands at the end of a chain from the service that is read, and has
been handed what the services of the chain declare. -/
theorem tagged_of_scans {s : Service} {d : Descent} {above : List Entry} {ms : List Method}
    {visits : List Visit} (h : Scans w s d above ms p visits q) (hs : EntersFrom w t s above)
    (hms : ms ⊆ s.methods)
    (hd : d.tags = (declaredOn above ++ s.info.declaredTags).eraseDups)
    (ha : ChainFrom w t above) :
    ∀ v ∈ visits, ChainFrom w t v.way ∧ v.entry.Tagged v.above := by
  have loaded {s : Service} {above : List Entry} (hs : EntersFrom w t s above) :
      ∃ u, w.loadService u = .ok s := by
    cases above with
    | nil => exact ⟨t, hs⟩
    | cons l above => exact ⟨hs.choose, hs.choose_spec.2⟩
  induction h with
  | nil => exact fun v hv => absurd hv List.not_mem_nil
  | unexposed _ hn rest ih => exact ih hs (List.cons_subset.1 hms).2 hd ha
  | hidden ht hi hb rest ih => exact ih hs (List.cons_subset.1 hms).2 hd ha
  | @operation e above ms p q r r' visits ht hi hb hsub hst rest ih =>
    obtain ⟨hm, hms⟩ := List.cons_subset.1 hms
    have here : ChainFrom w t (e :: above) := ⟨⟨loaded hs, hm, ht, hi, p, r, hb⟩, hs, ha⟩
    intro v hv
    rcases List.mem_cons.1 hv with rfl | hv
    · exact ⟨here, hd.trans (congrArg _ (declaredOn_cons e above).symm)⟩
    · exact ih hs hms hd ha v hv
  | @locator e above ms p q r r₁ r₂ r₃ nested visits u sub ht hi hb hsub hl hnew inner hst rest
      ihInner ihRest =>
    obtain ⟨hm, hms⟩ := List.cons_subset.1 hms
    have here : ChainFrom w t (e :: above) := ⟨⟨loaded hs, hm, ht, hi, p, r, hb⟩, hs, ha⟩
    have handed : e.descent.tags = (declaredOn (e :: above)).eraseDups :=
      hd.trans (congrArg _ (declaredOn_cons e above).symm)
    intro v hv
    rcases List.mem_append.1 hv with hv | hv
    · exact ihInner ⟨u, hsub, (load_ok hl).1⟩ (List.Subset.refl _)
        (e.below.within_tags sub handed) here v hv
    rcases List.mem_cons.1 hv with rfl | hv
    · exact ⟨here, handed⟩
    · exact ihRest hs hms hd ha v hv

/-- Every operation that a successful read stores, and every one that it visits, stands at the end
of a chain of exposed methods from the service that is read. Its tags are the first occurrences in
its own tags, followed by what the services of the chain declare, and the document lists them. -/
theorem tags_of_read {includeHidden : Bool} {u : Unit} (h : read w t includeHidden p = .ok u q) :
    ∃ visits, Reads w t includeHidden p visits q ∧
      (∀ o ∈ q.document.operations,
        o ∈ p.document.operations ∨ ∃ v ∈ visits, o = v.entry.slotted) ∧
      ∀ v ∈ visits, ChainFrom w t v.way ∧
        v.entry.operation.tags =
          (v.entry.info.tags.filter (· ≠ "") ++ declaredOn v.way).eraseDups ∧
        ∀ tag ∈ v.entry.operation.tags, tag ∈ q.document.tags := by
  obtain ⟨visits, reads⟩ := reads_of_ok h
  have listed := (document_of_reads reads).2.1
  have visited : ∀ v ∈ visits, ChainFrom w t v.way ∧ v.entry.Tagged v.above := by
    cases reads with
    | skipped hl hs => exact fun v hv => absurd hv List.not_mem_nil
    | @scanned s r q visits hl hs trace =>
      have start : ({ includeHidden } : Descent).tags = ([] : List String).eraseDups := rfl
      exact tagged_of_scans trace (load_ok hl).1 (List.Subset.refl _)
        (Descent.within_tags _ s start) trivial
  refine ⟨visits, reads, operations_of_reads reads, fun v hv => ?_⟩
  obtain ⟨chain, tagged⟩ := visited v hv
  refine ⟨chain, Entry.operation_tags chain.1 tagged, fun tag htag => ?_⟩
  obtain ⟨hne, hmem⟩ := chain.1.complete.2 tag htag
  rw [listed]
  exact mem_foldl_addName.2 (.inr ⟨List.mem_flatMap.2 ⟨v, hv, hmem⟩, hne⟩)

end Run

/-- Pages of the books of an archive. The archive takes its tag from its value, a book says that of
the archive once more, and pages declare none. -/
def World.archive : World where
  decls := [
    .cls {
      name := "Pages"
      qualname := "Pages"
      above := [.builtin .object]
      service := some { tags := [""] }
      path := some "/pages"
      methods := [("page", {
        name := "page"
        marked := true
        operation := some { tags := ["texts", "", "books"] } })] },
    .cls {
      name := "Books"
      qualname := "Books"
      above := [.builtin .object]
      service := some { tags := ["books", "archive", "books"] }
      path := some "/books"
      methods := [("book", {
        name := "book"
        marked := true
        operation := some {}
        returns := some (.declared 0) })] },
    .cls {
      name := "Archive"
      qualname := "Archive"
      above := [.builtin .object]
      service := some { value := "/archive/" }
      path := some "/archive"
      methods := [("open", {
        name := "open"
        marked := true
        operation := some { tags := ["halls"] }
        returns := some (.declared 1) })] }]
  names := [("Pages", .declared 0), ("Books", .declared 1), ("Archive", .declared 2)]

/-- A page has its own tags, then that of the archive; the tag of its book is among its own. -/
theorem Run.tags_of_read_archive : ∃ q, read World.archive (.declared 2) false {} = .ok () q ∧
    q.document.tags = ["texts", "books", "archive", "halls"] ∧
    ∃ v : Visit, v.entry.slotted ∈ q.document.operations ∧
      ChainFrom World.archive (.declared 2) v.way ∧
      v.entry.template.text = "/archive/books/pages" ∧
      v.entry.operation.tags = ["texts", "books", "archive"] ∧
      v.entry.operation.tags =
        (v.entry.info.tags.filter (· ≠ "") ++ declaredOn v.way).eraseDups := by
  have outcome : (read World.archive (.declared 2) false).observe (fun q =>
      (q.document.operations.map fun o => (o.1, o.2.2.tags), q.document.tags)) =
        some ([("/archive/books/pages", ["texts", "books", "archive"]),
          ("/archive/books", ["archive", "books"]), ("/archive", ["halls", "archive"])],
          ["texts", "books", "archive", "halls"]) := by decide +kernel
  obtain ⟨_, q, hr, hq⟩ := observe_some outcome
  obtain ⟨visits, reads, stored, tagged⟩ := tags_of_read hr
  obtain ⟨operations, tags⟩ := Prod.mk.inj hq
  have page : ("/archive/books/pages", ["texts", "books", "archive"]) ∈
      q.document.operations.map fun o => (o.1, o.2.2.tags) := operations ▸ List.mem_cons_self
  obtain ⟨o, ho, ho'⟩ := List.mem_map.1 page
  obtain ⟨path, own⟩ := Prod.mk.inj ho'
  obtain ⟨v, hv, rfl⟩ := (stored o ho).resolve_left List.not_mem_nil
  exact ⟨q, hr, tags, v, ho, (tagged v hv).1, path, own, (tagged v hv).2.1⟩

end ApiCompiler
