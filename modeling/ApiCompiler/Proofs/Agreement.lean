import ApiCompiler.Proofs.Additions
import ApiCompiler.Proofs.Frames
import ApiCompiler.Proofs.Merging

/-!
# The document agrees with the registry

The models of one name are merged twice: in the registry, when a model is built, and in the
document, when it is added. A document may be several models behind, but what it has under a name is
an earlier state of the model in the registry, and adding the model brings it up to date.
-/

set_option autoImplicit false

namespace ApiCompiler

/-- Equality of schemas, as it decides whether a definition is the model that is added. -/
def Schema.equals (s t : Schema) : Bool := s.identical t || s.same t

namespace Run

/-- Resolves a type and adds the models that can be reached from it to the document. -/
def collect (w : World) (t : TypeExpr) : Run (Table Schema) := do
  let models ← resolveReachable w t
  onDocument fun d => d.addModels models
  return models

def collectAll (w : World) : List TypeExpr → Run Unit
  | [] => pure ()
  | t :: ts => do
    let _ ← collect w t
    collectAll w ts

end Run

theorem Schema.equals_refl (s : Schema) : s.equals s = true := by
  rw [Schema.equals, Schema.identical_refl, Bool.true_or]

namespace Registry

/-- All definitions are earlier states of models of the registry, or these models themselves. -/
def Copied (r : Registry) (definitions : Table Schema) : Prop :=
  ∀ name d, definitions.get? name = some d → ∃ m, r.models.get? name = some m ∧ d.KeptIn m

/-- The definition of a name is equal to the model of that name. -/
def Current (r : Registry) (definitions : Table Schema) (name : String) : Prop :=
  ∃ d m, definitions.get? name = some d ∧ r.models.get? name = some m ∧ d.equals m = true

variable {r r' : Registry} {d : Document} {name n : String} {m : Schema}

theorem Copied.evolves {definitions : Table Schema} (h : r.Copied definitions)
    (hr : r.Evolves r') : r'.Copied definitions := by
  intro name d hd
  obtain ⟨m, hm, kept⟩ := h name d hd
  obtain ⟨m', hm', kept'⟩ := hr.models name m hm
  exact ⟨m', hm', kept.trans kept'⟩

/-- Adding a model over an earlier state of it leaves the model, or what is equal to it. -/
theorem combine_kept {old : Schema} (h : old.KeptIn m) (hm : Table.Distinct m.properties) :
    (Document.combine name (some old) m).1 = if old.equals m then old else m := by
  unfold Document.combine
  simp only
  rw [← Schema.equals]
  by_cases he : old.equals m = true
  · rw [if_pos he, if_pos he]
  · rw [if_neg he, if_neg he]
    split
    · rcases h with rfl | h
      · exact absurd m.equals_refl he
      · exact h.unite hm
    · rfl

theorem addModel_copied (hr : r.Distinct) (hd : r.Copied d.definitions)
    (hm : r.models.get? name = some m) :
    r.Copied (d.addModel name m).1.definitions ∧
      r.Current (d.addModel name m).1.definitions name := by
  obtain ⟨s, hs, kept, equal⟩ : ∃ s, (Document.combine name (d.definitions.get? name) m).1 = s ∧
      s.KeptIn m ∧ s.equals m = true := by
    cases hget : d.definitions.get? name with
    | none => exact ⟨m, rfl, .inl rfl, m.equals_refl⟩
    | some old =>
      obtain ⟨m', hm', kept⟩ := hd name old hget
      obtain rfl : m = m' := Option.some.inj (hm.symm.trans hm')
      refine ⟨_, combine_kept kept (hr name m hm), ?_⟩
      split
      · rename_i he
        exact ⟨kept, he⟩
      · exact ⟨.inl rfl, m.equals_refl⟩
  rw [Document.addModel_document, hs]
  refine ⟨fun n d' hd' => ?_, s, m, ?_, hm, equal⟩
  · rw [Table.get?_insert] at hd'
    split at hd'
    · rename_i hname
      exact ⟨m, hname ▸ hm, Option.some.inj hd' ▸ kept⟩
    · exact hd n d' hd'
  · rw [Table.get?_insert, if_pos rfl]

theorem addModel_current (hr : r.Distinct) (hd : r.Copied d.definitions)
    (hm : r.models.get? name = some m) (hn : r.Current d.definitions n) :
    r.Current (d.addModel name m).1.definitions n := by
  by_cases hname : name = n
  · exact hname ▸ (addModel_copied hr hd hm).2
  · obtain ⟨s, m', hs, hm', equal⟩ := hn
    refine ⟨s, m', ?_, hm', equal⟩
    rw [Document.addModel_document, Table.get?_insert, if_neg hname, hs]

/-- Adding models of the registry brings their names up to date. -/
theorem addModels_copied {models : Table Schema} (hr : r.Distinct) (hd : r.Copied d.definitions)
    (hm : ∀ e ∈ models, r.models.get? e.1 = some e.2) :
    r.Copied (d.addModels models).1.definitions ∧
      ∀ n, r.Current d.definitions n ∨ models.has n →
        r.Current (d.addModels models).1.definitions n := by
  induction models generalizing d with
  | nil => exact ⟨hd, fun n hn => hn.resolve_right nofun⟩
  | cons e models ih =>
    have here := hm e List.mem_cons_self
    obtain ⟨copied, current⟩ := addModel_copied hr hd here
    obtain ⟨copied', current'⟩ := ih copied fun e' he' => hm e' (List.mem_cons_of_mem _ he')
    rw [Document.addModels_cons]
    refine ⟨copied', fun n hn => current' n ?_⟩
    rcases hn with hn | hn
    · exact .inl (addModel_current hr hd here hn)
    · rw [Table.has_iff_mem_keys] at hn
      rcases List.mem_cons.1 hn with rfl | hn
      · exact .inl current
      · exact .inr (Table.has_iff_mem_keys.2 hn)

end Registry

namespace Run

variable {w : World} {o : Overrides} {t : TypeExpr} {ts : List TypeExpr} {p q : Progress}
  {models : Table Schema} {name : String}

/-- One type after the other: what has been defined stays behind the registry, and the models of
the type are up to date. -/
theorem collect_copied (h : collect w t p = .ok models q) (hr : p.registry.Distinct)
    (hp : p.registry.Copied p.document.definitions) :
    q.registry.Distinct ∧ q.registry.Copied q.document.definitions ∧
      ∀ n, models.has n → q.registry.Current q.document.definitions n := by
  obtain ⟨_, r, hm, h⟩ := bind_ok.1 h
  obtain ⟨s, r', hs, hm⟩ := bind_ok.1 hm
  obtain ⟨_, _, hget, hm⟩ := bind_ok.1 hm
  obtain ⟨rfl, rfl⟩ := get_ok.1 hget
  obtain ⟨rfl, rfl⟩ := pure_ok.1 hm
  rw [bind_of_ok (onDocument_apply _ _)] at h
  obtain ⟨rfl, rfl⟩ := pure_ok.1 h
  have evolves : p.registry.Evolves r'.registry := resolveWithin_evolves w hs
  have copied : r'.registry.Copied r'.document.definitions := by
    rw [resolve_document hs]
    exact hp.evolves evolves
  have distinct := evolves.distinct hr
  have members : ∀ e ∈ r'.registry.modelsFor s, r'.registry.models.get? e.1 = some e.2 :=
    fun e he => (Registry.get?_of_mem_reachable he).resolve_left nofun
  obtain ⟨copied', current⟩ := Registry.addModels_copied distinct copied members
  exact ⟨distinct, copied', fun n hn => current n (.inr hn)⟩

theorem collectAll_copied (h : collectAll w ts p = .ok () q) (hr : p.registry.Distinct)
    (hp : p.registry.Copied p.document.definitions) :
    q.registry.Distinct ∧ q.registry.Copied q.document.definitions := by
  induction ts generalizing p with
  | nil =>
    obtain ⟨_, rfl⟩ := pure_ok.1 h
    exact ⟨hr, hp⟩
  | cons t ts ih =>
    obtain ⟨_, r, ht, h⟩ := bind_ok.1 h
    obtain ⟨distinct, copied, _⟩ := collect_copied ht hr hp
    exact ih h distinct copied

/-- The document and the registry agree. Types are resolved one after the other and the models that
can be reached from each are added to the document, beginning with a fresh resolver and an empty
document; then the models of the last type are equal in both, whatever types share their names. -/
theorem definitions_agree (h : collectAll w ts { registry := { overrides := o } } = .ok () p)
    (ht : collect w t p = .ok models q) (hn : models.has name) :
    ∃ d m, q.document.definitions.get? name = some d ∧ q.registry.models.get? name = some m ∧
      d.equals m = true := by
  obtain ⟨distinct, copied⟩ := collectAll_copied h nofun nofun
  obtain ⟨_, _, current⟩ := collect_copied ht distinct copied
  exact current name hn

end Run

/-- Two classes of boxes with one qualified name, side by side on a shelf. -/
def World.shelf : World where
  decls := [
    .cls {
      name := "Box"
      qualname := "Box"
      above := [.builtin .object]
      annotations := [("weight", .builtin .int)] },
    .cls {
      name := "Box"
      qualname := "Box"
      above := [.builtin .object]
      annotations := [("height", .builtin .int)] },
    .cls {
      name := "Shelf"
      qualname := "Shelf"
      above := [.builtin .object]
      annotations := [("left", .declared 0), ("right", .declared 1)] }]
  names := [("Weighed", .declared 0), ("Measured", .declared 1), ("Shelf", .declared 2)]

/-- The document has one kind of boxes before the shelf brings the other one. -/
theorem Run.definitions_agree_shelf :
    ∃ p q models d m, collectAll World.shelf [.declared 0] {} = .ok () p ∧
      collect World.shelf (.declared 2) p = .ok models q ∧
      (p.document.definitions.get? "app.Box").map (fun s => Table.keys s.properties) =
        some ["weight"] ∧
      models.has "app.Box" ∧ q.document.definitions.get? "app.Box" = some d ∧
      q.registry.models.get? "app.Box" = some m ∧ d.equals m = true ∧
      Table.keys d.properties = ["weight", "height"] := by
  have seen : (match collectAll World.shelf [.declared 0] {} with
      | .error _ _ => none
      | .ok _ p => match collect World.shelf (.declared 2) p with
        | .error _ _ => none
        | .ok models q => some (
          (p.document.definitions.get? "app.Box").map fun s => Table.keys s.properties,
          models.has "app.Box",
          (q.document.definitions.get? "app.Box").map fun s => Table.keys s.properties)) =
      some (some ["weight"], true, some ["weight", "height"]) := by decide +kernel
  cases hp : collectAll World.shelf [.declared 0] {} with
  | error e p => simp [hp] at seen
  | ok u p =>
    cases hq : collect World.shelf (.declared 2) p with
    | error e q => simp [hp, hq] at seen
    | ok models q =>
      simp only [hp, hq, Option.some.injEq, Prod.mk.injEq] at seen
      obtain ⟨before, found, after⟩ := seen
      obtain ⟨d, m, hd, hm, equal⟩ := definitions_agree (o := []) hp hq found
      rw [hd] at after
      exact ⟨p, q, models, d, m, rfl, hq, before, found, hd, hm, equal, Option.some.inj after⟩

end ApiCompiler
