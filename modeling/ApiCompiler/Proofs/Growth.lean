import ApiCompiler.Proofs.ScanFrames
import ApiCompiler.Proofs.Slots

/-!
# The document grows

Nothing is ever taken out of a document. What could get lost are the fields of a definition, when a
model of another kind takes its place. `Progress.Registers` names the models that a run has added to
the document: adding them accounts for the definitions that it leaves and for all that it reports of
definitions. A definition keeps its fields where all models that are added under its name are
objects, as it is one itself.
-/

set_option autoImplicit false

namespace ApiCompiler

/-- The models that have been added on the way from one state to another, in order. -/
structure Progress.Registers (p : Progress) (added : Table Schema) (q : Progress) : Prop where
  definitions : q.document.definitions = (p.document.addModels added).1.definitions
  notices : ∃ more, q.notices = more ++ p.notices ∧
    more.reverse.filter Notice.ofDefinition = (p.document.addModels added).2

/-- The properties and the required names of the first schema are among those of the second. -/
structure Schema.FieldsWithin (s s' : Schema) : Prop where
  properties : ∀ k, Table.has s.properties k → Table.has s'.properties k
  required : ∀ n ∈ s.required, n ∈ s'.required

namespace Document

/-- Slots, definitions and listed names of the first document are in the second, and so are the
fields of an object definition under whose name only objects have been added. -/
structure GrowsTo (d : Document) (added : Table Schema) (d' : Document) : Prop where
  slots : ∀ slot, (Slot.at? d.paths slot).isSome → (Slot.at? d'.paths slot).isSome
  definitions : ∀ name, d.definitions.has name → d'.definitions.has name
  tags : d.tags <+: d'.tags
  securitySchemes : d.securitySchemes <+: d'.securitySchemes
  fields : ∀ name s, d.definitions.get? name = some s → s.kind = .object →
    (∀ e ∈ added, e.1 = name → e.2.kind = .object) →
    ∃ s', d'.definitions.get? name = some s' ∧ s'.kind = .object ∧ s.FieldsWithin s'

end Document

namespace Schema.FieldsWithin

variable {s s' s'' : Schema}

theorem refl (s : Schema) : s.FieldsWithin s := ⟨fun _ => id, fun _ => id⟩

theorem trans (h : s.FieldsWithin s') (h' : s'.FieldsWithin s'') : s.FieldsWithin s'' :=
  ⟨fun k hk => h'.properties k (h.properties k hk), fun n hn => h'.required n (h.required n hn)⟩

end Schema.FieldsWithin

namespace Document

theorem fieldsWithin_unite (s model : Schema) : s.FieldsWithin (unite s model) where
  properties k hk := by
    rw [unite, Table.has_merge]
    exact .inl hk
  required n hn := by
    rw [unite, mem_distinctNames]
    exact List.mem_append_left _ hn

/-- An object stays one, with its fields, when an object is added under its name. -/
theorem combine_object (name : String) {s model : Schema} (hs : s.kind = .object)
    (hm : model.kind = .object) :
    (combine name (some s) model).1.kind = .object ∧
      s.FieldsWithin (combine name (some s) model).1 := by
  unfold combine
  simp only
  split
  · exact ⟨hs, .refl s⟩
  · rw [if_pos ⟨hs, hm⟩]
    exact ⟨hm, fieldsWithin_unite s model⟩

/-- All reports of adding models are about definitions. -/
theorem ofDefinition_addModels {d : Document} {models : Table Schema} :
    ∀ n ∈ (d.addModels models).2, n.ofDefinition = true := by
  induction models generalizing d with
  | nil => exact fun _ => List.not_mem_nil.elim
  | cons e models ih =>
    have combined : ∀ n ∈ (combine e.1 (d.definitions.get? e.1) e.2).2, n.ofDefinition = true := by
      intro n hn
      unfold combine at hn
      split at hn
      · cases hn
      · split at hn
        · cases hn
        · split at hn
          · rw [List.mem_singleton.1 hn]
            rfl
          · rw [List.mem_singleton.1 hn]
            rfl
    intro n hn
    rw [addModels_snd_cons] at hn
    exact (List.mem_append.1 hn).elim (combined n) (ih n)

theorem fields_addModels {d : Document} {added : Table Schema} {name : String} {s : Schema}
    (hget : d.definitions.get? name = some s) (hs : s.kind = .object)
    (hadded : ∀ e ∈ added, e.1 = name → e.2.kind = .object) :
    ∃ s', (d.addModels added).1.definitions.get? name = some s' ∧ s'.kind = .object ∧
      s.FieldsWithin s' := by
  induction added generalizing d s with
  | nil => exact ⟨s, hget, hs, .refl s⟩
  | cons e added ih =>
    have rest := fun e' he' => hadded e' (List.mem_cons_of_mem _ he')
    rw [addModels_cons]
    by_cases hname : e.1 = name
    · have hm : e.2.kind = .object := hadded e List.mem_cons_self hname
      obtain ⟨hkind, within⟩ := combine_object e.1 hs hm
      have first : (d.addModel e.1 e.2).1.definitions.get? name =
          some (combine e.1 (some s) e.2).1 := by
        rw [addModel_document, Table.get?_insert, if_pos hname, hname, hget]
      obtain ⟨s', hget', hs', within'⟩ := ih first hkind rest
      exact ⟨s', hget', hs', within.trans within'⟩
    · refine ih ?_ hs rest
      rw [addModel_document, Table.get?_insert, if_neg hname, hget]

theorem slots_addOperation {d : Document} {path verb : String} {op : Operation} {slot : Slot}
    (h : (Slot.at? d.paths slot).isSome) :
    (Slot.at? (d.addOperation path verb op).1.paths slot).isSome := by
  obtain ⟨outer, inner⟩ := slot
  show ((Table.get? (d.paths.insert path
    (((d.paths.get? path).getD []).insert (Text.lower verb) op)) outer).bind
      fun verbs => Table.get? verbs inner).isSome
  rw [Table.get?_insert]
  by_cases hpath : path = outer
  · subst hpath
    rw [if_pos rfl, Option.bind_some]
    refine Table.has_insert.2 (.inr ?_)
    unfold Slot.at? at h
    cases hverbs : d.paths.get? path with
    | none => rw [hverbs] at h; cases h
    | some verbs =>
      rw [hverbs] at h
      exact h
  · rw [if_neg hpath]
    exact h

end Document

theorem prefix_foldl_addName (names more : List String) : names <+: more.foldl addName names := by
  induction more generalizing names with
  | nil => exact List.prefix_rfl
  | cons n more ih =>
    refine List.IsPrefix.trans ?_ (ih _)
    unfold addName
    split
    · exact List.prefix_rfl
    · exact List.prefix_append _ _

namespace Progress

variable {p q r : Progress} {added more : Table Schema}

namespace Registers

theorem of_document (hd : q.document = p.document) (ns : List Notice)
    (hn : q.notices = ns ++ p.notices) (hns : ∀ n ∈ ns, n.ofDefinition = false) :
    p.Registers [] q where
  definitions := congrArg Document.definitions hd
  notices := by
    refine ⟨ns, hn, List.filter_eq_nil_iff.2 fun n h => ?_⟩
    simpa using hns n (List.mem_reverse.1 h)

theorem refl (p : Progress) : p.Registers [] p := of_document rfl [] rfl nofun

theorem trans (h : p.Registers added q) (h' : q.Registers more r) :
    p.Registers (added ++ more) r := by
  obtain ⟨definitions, notices⟩ := Document.addModels_congr h.definitions more
  obtain ⟨fst, snd⟩ := Document.addModels_append p.document added more
  refine ⟨?_, ?_⟩
  · rw [h'.definitions, definitions, fst]
  · obtain ⟨ns, hns, heq⟩ := h.notices
    obtain ⟨ns', hns', heq'⟩ := h'.notices
    refine ⟨ns' ++ ns, by rw [hns', hns, List.append_assoc], ?_⟩
    rw [List.reverse_append, List.filter_append, heq, heq', notices, snd]

end Registers

/-- From one state to another by registering models, where nothing else is taken away. -/
structure Grows (p q : Progress) : Prop where
  registers : ∃ added, p.Registers added q
  slots : ∀ slot, (Slot.at? p.document.paths slot).isSome →
    (Slot.at? q.document.paths slot).isSome
  tags : p.document.tags <+: q.document.tags
  securitySchemes : p.document.securitySchemes <+: q.document.securitySchemes

namespace Grows

theorem of_document (hd : q.document = p.document) (ns : List Notice)
    (hn : q.notices = ns ++ p.notices) (hns : ∀ n ∈ ns, n.ofDefinition = false) : p.Grows q where
  registers := ⟨[], .of_document hd ns hn hns⟩
  slots _ h := hd.symm ▸ h
  tags := hd.symm ▸ List.prefix_rfl
  securitySchemes := hd.symm ▸ List.prefix_rfl

theorem trans (h : p.Grows q) (h' : q.Grows r) : p.Grows r where
  registers := by
    obtain ⟨added, hadded⟩ := h.registers
    obtain ⟨more, hmore⟩ := h'.registers
    exact ⟨added ++ more, hadded.trans hmore⟩
  slots slot hs := h'.slots slot (h.slots slot hs)
  tags := h.tags.trans h'.tags
  securitySchemes := h.securitySchemes.trans h'.securitySchemes

theorem addModels (p : Progress) (added : Table Schema) :
    p.Grows (Run.after (Run.onDocument fun d => d.addModels added) p) := by
  rw [Run.after_of_ok (Run.onDocument_apply _ p)]
  have registers : p.Registers added { p with
      document := (p.document.addModels added).1
      notices := (p.document.addModels added).2.reverse ++ p.notices } := by
    refine ⟨rfl, _, rfl, ?_⟩
    rw [List.reverse_reverse]
    exact List.filter_eq_self.2 Document.ofDefinition_addModels
  obtain ⟨definitions, h⟩ := Document.addModels_document added p.document
  refine ⟨⟨added, registers⟩, fun slot hs => ?_, ?_, ?_⟩
  all_goals simp only [h]
  · exact hs
  · exact List.prefix_rfl
  · exact List.prefix_rfl

theorem store (p : Progress) (e : Entry) : p.Grows (Run.after e.store p) := by
  have h := Run.store_apply e.template.text e.method.verb (e.info.tags ++ e.descent.tags)
    e.operation p
  rw [show Run.after e.store p = _ from Run.after_of_ok h]
  refine ⟨⟨[], rfl, _, rfl, ?_⟩, fun slot => Document.slots_addOperation,
    prefix_foldl_addName _ _, prefix_foldl_addName _ _⟩
  rw [List.reverse_reverse, Document.addOperation]
  simp only
  split <;> rfl

end Grows

end Progress

namespace Run

variable (w : World)

theorem allowsScanning_grows : AllowsScanning w Progress.Grows where
  refl _ := .of_document rfl [] rfl nofun
  trans := .trans
  notice _ n hn := .of_document rfl [n] rfl fun _ hm => List.mem_singleton.1 hm ▸ hn
  registry _ _ := .of_document rfl [] rfl nofun
  models added p := .addModels p added
  trail _ _ := .of_document rfl [] rfl nofun
  store e _ p := .store p e

/-- The document only grows: whatever the state that a read starts from, and whether it returns or
fails, nothing that was in the document is missing afterwards; a definition can lose fields only by
a model of another kind that the read adds under its name. -/
theorem read_grows (t : TypeExpr) (includeHidden : Bool) (p : Progress) :
    ∃ added, p.Registers added (after (read w t includeHidden) p) ∧
      p.document.GrowsTo added (after (read w t includeHidden) p).document := by
  have grows : p.Grows (after (read w t includeHidden) p) :=
    read_keeps (allowsScanning_grows w) t includeHidden p
  obtain ⟨added, registers⟩ := grows.registers
  refine ⟨added, registers, grows.slots, fun name hname => ?_, grows.tags, grows.securitySchemes,
    fun name s hget hs hadded => ?_⟩
  · rw [registers.definitions]
    exact Document.has_addModels.2 (.inr hname)
  · rw [registers.definitions]
    exact Document.fields_addModels hget hs hadded

end Run

end ApiCompiler
