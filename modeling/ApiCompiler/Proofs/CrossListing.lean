import Mathlib.Data.List.Nodup
import ApiCompiler.Proofs.ScanFrames

/-!
# Complete and cross-listed operations

An operation is put together in three places: building gives it responses and security names,
placing adds transfer schemes, completing adds tags, more security names and media types. Only then
is it stored, and its tags and security names are listed in the document before it stands in its
slot. A scan that fails therefore leaves no operation halfway: what is there is complete, and the
document lists what it names.
-/

set_option autoImplicit false

namespace ApiCompiler

/-- A list that takes a name once and never an empty one. -/
structure IsNameList (names : List String) : Prop where
  nodup : names.Nodup
  nonempty : "" ∉ names

namespace IsNameList

variable {names : List String}

theorem nil : IsNameList [] := ⟨List.nodup_nil, nofun⟩

theorem addName (h : IsNameList names) (name : String) : IsNameList (addName names name) := by
  unfold ApiCompiler.addName
  split
  · exact h
  · rename_i hn
    rw [not_or] at hn
    constructor
    · refine List.nodup_append.2 ⟨h.nodup, List.nodup_singleton name, fun a ha b hb => ?_⟩
      rw [List.mem_singleton.1 hb]
      rintro rfl
      exact hn.2 ha
    · rw [List.mem_append, List.mem_singleton, not_or]
      exact ⟨h.nonempty, Ne.symm hn.1⟩

theorem addNames (h : IsNameList names) (more : List String) :
    IsNameList (more.foldl ApiCompiler.addName names) := by
  induction more generalizing names with
  | nil => exact h
  | cons n more ih => exact ih (h.addName n)

end IsNameList

/-- Nothing that an operation in a document needs is left out. -/
structure Operation.Complete (op : Operation) : Prop where
  responses : op.responses ≠ []
  consumes : op.consumes ≠ []
  produces : op.produces ≠ []
  tags : IsNameList op.tags
  security : IsNameList op.security
  schemes : IsNameList op.schemes

namespace Document

/-- The document lists the tags and the security names of an operation. -/
structure ListsNamesOf (d : Document) (op : Operation) : Prop where
  tags : ∀ t ∈ op.tags, t ∈ d.tags
  security : ∀ n ∈ op.security, n ∈ d.securitySchemes

structure CrossListed (d : Document) : Prop where
  complete : ∀ o ∈ d.operations, o.2.2.Complete
  listed : ∀ o ∈ d.operations, d.ListsNamesOf o.2.2
  tags : IsNameList d.tags
  securitySchemes : IsNameList d.securitySchemes

theorem ListsNamesOf.mono {d d' : Document} {op : Operation} (h : d.ListsNamesOf op)
    (ht : ∀ t ∈ d.tags, t ∈ d'.tags) (hs : ∀ n ∈ d.securitySchemes, n ∈ d'.securitySchemes) :
    d'.ListsNamesOf op :=
  ⟨fun t h' => ht t (h.tags t h'), fun n h' => hs n (h.security n h')⟩

theorem CrossListed.empty : CrossListed {} := ⟨nofun, nofun, .nil, .nil⟩

/-- Definitions have no part in it. -/
theorem CrossListed.withDefinitions {d : Document} (h : d.CrossListed)
    (definitions : Table Schema) : CrossListed { d with definitions } :=
  ⟨h.complete, fun o ho => ⟨(h.listed o ho).tags, (h.listed o ho).security⟩, h.tags,
    h.securitySchemes⟩

end Document

namespace Run

variable {w : World} {p q : Progress} {op op' : Operation}

theorem successResponse_responses {m : Method} {headers : Table Schema}
    (h : successResponse w m headers op p = .ok op' q) :
    ∃ responses, op' = { op with responses } := by
  unfold successResponse at h
  cases ht : w.payloadType m with
  | none =>
    rw [ht] at h
    obtain ⟨rfl, _⟩ := pure_ok.1 h
    exact ⟨op.responses, rfl⟩
  | some t =>
    rw [ht] at h
    obtain ⟨_, _, _, h⟩ := bind_ok.1 h
    obtain ⟨rfl, _⟩ := pure_ok.1 h
    exact ⟨_, rfl⟩

theorem declaredResponses_responses {declared : List ResponseInfo}
    (h : declaredResponses w declared op p = .ok op' q) :
    ∃ responses, op' = { op with responses } := by
  induction declared generalizing op p with
  | nil =>
    obtain ⟨rfl, _⟩ := pure_ok.1 h
    exact ⟨op.responses, rfl⟩
  | cons r rs ih =>
    obtain ⟨_, _, _, h⟩ := bind_ok.1 h
    split at h
    · obtain ⟨responses, rfl⟩ := ih h
      exact ⟨responses, rfl⟩
    · obtain ⟨_, _, _, h⟩ := bind_ok.1 h
      obtain ⟨responses, rfl⟩ := ih h
      exact ⟨responses, rfl⟩

/-- An operation as it is built: it has a response, and of the lists of names only the one of
security names. -/
theorem build_lists {m : Method} (h : build w m p = .ok (some op) q) :
    op.responses ≠ [] ∧ op.tags = [] ∧ IsNameList op.security ∧ op.schemes = [] := by
  unfold build at h
  split at h
  · cases h
  · obtain ⟨headers, p₁, _, h⟩ := bind_ok.1 h
    obtain ⟨op₁, p₂, hs, h⟩ := bind_ok.1 h
    obtain ⟨op₂, p₃, hd, h⟩ := bind_ok.1 h
    obtain ⟨parameters, p₄, _, h⟩ := bind_ok.1 h
    obtain ⟨hop, rfl⟩ := pure_ok.1 h
    obtain rfl := Option.some.inj hop
    have lists : op₂.tags = [] ∧ IsNameList op₂.security ∧ op₂.schemes = [] := by
      obtain ⟨_, rfl⟩ := successResponse_responses hs
      obtain ⟨_, rfl⟩ := declaredResponses_responses hd
      rw [Operation.foldl_addSecurity]
      exact ⟨rfl, IsNameList.nil.addNames _, rfl⟩
    obtain ⟨tags, security, schemes⟩ := lists
    split
    · exact ⟨Table.insert_ne_nil _ _ _, tags, security, schemes⟩
    · rename_i answered
      exact ⟨by simpa using answered, tags, security, schemes⟩

end Run

/-- A stored operation is complete, and its tags are those that storing lists in the document. -/
theorem Entry.Arises.complete {w : World} {e : Entry} (h : e.Arises w) :
    e.operation.Complete ∧
      ∀ t ∈ e.operation.tags, t ≠ "" ∧ t ∈ e.info.tags ++ e.descent.tags := by
  obtain ⟨p, q, hbuild⟩ := h.built
  obtain ⟨responses, tags, security, schemes⟩ := Run.build_lists hbuild
  have media (types : List String) :
      (if types.isEmpty then [Run.defaultMediaType] else types) ≠ [] := by
    split
    · exact List.cons_ne_nil _ _
    · rename_i stated
      simpa using stated
  rw [Entry.operation, Entry.placed, Run.placed_eq, Run.completed_eq]
  refine ⟨⟨responses, media _, media _, ?_, security.addNames _, ?_⟩, fun t ht => ?_⟩
  · rw [tags]
    exact (IsNameList.nil.addNames _).addNames _
  · rw [schemes]
    exact IsNameList.nil.addNames _
  · rw [tags] at ht
    rcases mem_foldl_addName.1 ht with ht | ⟨ht, hne⟩
    · rcases mem_foldl_addName.1 ht with ht | ⟨ht, hne⟩
      · cases ht
      · exact ⟨hne, List.mem_append_left _ ht⟩
    · exact ⟨hne, List.mem_append_right _ ht⟩

namespace Run

variable {w : World} {p q : Progress}

/-- Storing an operation keeps the document cross-listed. -/
theorem store_crossListed {e : Entry} (he : e.Arises w) (h : e.store p = .ok () q)
    (hp : p.document.CrossListed) : q.document.CrossListed := by
  obtain ⟨complete, tags⟩ := he.complete
  obtain ⟨htags, hschemes⟩ := store_names h
  have tagged : ∀ t ∈ p.document.tags, t ∈ q.document.tags := fun t ht => by
    rw [htags]
    exact mem_foldl_addName.2 (.inl ht)
  have secured : ∀ n ∈ p.document.securitySchemes, n ∈ q.document.securitySchemes :=
    fun n hn => by
      rw [hschemes]
      exact mem_foldl_addName.2 (.inl hn)
  have new : q.document.ListsNamesOf e.operation := by
    refine ⟨fun t ht => ?_, fun n hn => ?_⟩
    · obtain ⟨hne, ht⟩ := tags t ht
      rw [htags]
      exact mem_foldl_addName.2 (.inr ⟨ht, hne⟩)
    · rw [hschemes]
      refine mem_foldl_addName.2 (.inr ⟨hn, ?_⟩)
      rintro rfl
      exact complete.security.nonempty hn
  constructor
  · intro o ho
    rcases operations_of_store h ho with rfl | ho
    · exact complete
    · exact hp.complete o ho
  · intro o ho
    rcases operations_of_store h ho with rfl | ho
    · exact new
    · exact (hp.listed o ho).mono tagged secured
  · rw [htags]
    exact hp.tags.addNames _
  · rw [hschemes]
    exact hp.securitySchemes.addNames _

/-- What a scan does keeps the document cross-listed at every point. -/
theorem allowsScanning_crossListed :
    AllowsScanning w fun p q => p.document.CrossListed → q.document.CrossListed where
  refl _ := id
  trans h₁ h₂ := h₂ ∘ h₁
  notice _ _ _ := id
  registry _ _ := id
  models added p := by
    obtain ⟨definitions, h⟩ := Document.addModels_document added p.document
    rw [after_of_ok (onDocument_apply _ p), h]
    exact fun hp => hp.withDefinitions definitions
  trail _ _ := id
  store e he p := by
    have h := store_apply e.template.text e.method.verb (e.info.tags ++ e.descent.tags)
      e.operation p
    rw [show after e.store p = _ from after_of_ok h]
    exact store_crossListed he h

/-- Reads that begin with an empty document, however many of them and whether they fail or not,
leave every operation complete and everything it names listed. -/
theorem crossListed_afterReads (reads : List (TypeExpr × Bool)) (p : Progress) :
    (afterReads w reads { p with document := {} }).document.CrossListed :=
  afterReads_keeps allowsScanning_crossListed reads _ .empty

end Run

end ApiCompiler
