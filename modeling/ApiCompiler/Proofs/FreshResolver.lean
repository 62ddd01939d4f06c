import ApiCompiler.Proofs.FaithfulRegistry
import ApiCompiler.Proofs.References

/-!
# Resolving afresh

A resolver that has been used finds what one with an empty registry would find. That the schemas
agree follows from what types denote; that a fresh resolver comes to an end as well has to be shown,
since it builds what the used one had already built. It ends because each model that is begun is one
name less of those that the used registry has, and between two models a type only gets smaller.
-/

set_option autoImplicit false

namespace ApiCompiler

/-- From some bound on. -/
def FromSome (P : Nat → Prop) : Prop := ∃ N, ∀ bound, N ≤ bound → P bound

theorem FromSome.succ {P : Nat → Prop} (h : FromSome fun bound => P (bound + 1)) : FromSome P := by
  obtain ⟨N, hN⟩ := h
  refine ⟨N + 1, fun bound hb => ?_⟩
  obtain ⟨b, rfl⟩ : ∃ b, bound = b + 1 := ⟨bound - 1, by omega⟩
  exact hN b (by omega)

theorem FromSome.forall₂ {α β : Type} {R : Nat → α → β → Prop} {xs : List α} {ys : List β}
    (h : List.Forall₂ (fun x y => FromSome fun bound => R bound x y) xs ys) :
    FromSome fun bound => List.Forall₂ (R bound) xs ys := by
  induction h with
  | nil => exact ⟨0, fun _ _ => .nil⟩
  | cons hxy _ ih =>
    obtain ⟨N, hN⟩ := hxy
    obtain ⟨N', hN'⟩ := ih
    exact ⟨max N N', fun bound hb => .cons (hN bound (by omega)) (hN' bound (by omega))⟩

/-- The names of the models of a registry that another registry does not know are among these. -/
def Registry.Lacks (whole r : Registry) (names : List String) : Prop :=
  ∀ n, whole.models.has n → r.Known n ∨ n ∈ names

namespace Registry.Lacks

variable {whole r r' : Registry} {names : List String}

theorem mono (hg : r.Grows r') (h : whole.Lacks r names) : whole.Lacks r' names :=
  fun n hn => (h n hn).imp_left hg.known

theorem push (h : whole.Lacks r names) (name : String) :
    whole.Lacks { r with resolving := name :: r.resolving } (names.erase name) := by
  intro n hn
  by_cases hname : n = name
  · exact .inl (.inr (hname ▸ List.mem_cons_self))
  · refine (h n hn).imp (fun hk => hk.imp_right (List.mem_cons_of_mem _)) fun hk => ?_
    exact (List.mem_erase_of_ne hname).2 hk

end Registry.Lacks

section Definitions

variable (w : World) (o : Overrides) (M : TypeExpr → Prop)

/-- A resolver comes to the schema of a type wherever fewer than so many names are missing. -/
def Run.Answers (whole : Registry) (k : Nat) (f : TypeExpr → Run Schema) (t : TypeExpr)
    (s : Schema) : Prop :=
  ∀ ⦃p : Progress⦄ ⦃names : List String⦄, p.registry.Faithful w o M →
    p.registry.Encloses w o M t → whole.Lacks p.registry names → names.length < k →
    ∃ q, f t p = .ok s q

/-- What resolvers that start with an empty registry find for a type: no other schema, and this one
when they may nest deep enough. -/
structure World.Resolves (t : TypeExpr) (s : Schema) : Prop where
  found : FromSome fun bound => ∀ p : Progress, p.registry = { overrides := o } →
    ∃ q, Run.resolveWithin w bound t p = .ok s q
  only : ∀ (bound : Nat) (p q : Progress) (s' : Schema), p.registry = { overrides := o } →
    Run.resolveWithin w bound t p = .ok s' q → s' = s

/-- A registry after resolving some types one after the other, the last one first, none of them in
vain. Each may nest as deep as it likes. -/
inductive World.Reached : List TypeExpr → Registry → Prop
  | start : Reached [] { overrides := o }
  | resolve {ts : List TypeExpr} {t : TypeExpr} {s : Schema} {bound : Nat} {p q : Progress}
      (h : Reached ts p.registry) (ht : Run.resolveWithin w bound t p = .ok s q) :
      Reached (t :: ts) q.registry

end Definitions

variable {w : World} {o : Overrides} {M : TypeExpr → Prop} {t u : TypeExpr} {s : Schema}
  {name : String} {fields : List ModelField} {schemas : List Schema} {whole r : Registry}

section Invariant

variable (closed : ∀ {t u : TypeExpr}, M t → w.Descends o t u → M u) (apart : w.NamesApart o M)

namespace Run

variable {f : TypeExpr → Run Schema} {p q : Progress} {k : Nat} {names : List String}

theorem resolveFields_answers (hf : Follows w o M f)
    (h : List.Forall₂ (fun m s => Answers w o M whole k f m.type s) fields schemas)
    (hk : names.length < k) :
    ∀ {properties : Table Schema} {required : List String} {p : Progress},
      (∀ m ∈ fields, M m.type ∧ p.registry.Encloses w o M m.type) →
      p.registry.Faithful w o M → whole.Lacks p.registry names →
      ∃ out q, resolveFields f fields properties required p = .ok out q := by
  induction h with
  | nil => exact fun {properties required p} _ _ _ => ⟨(properties, required), p, rfl⟩
  | @cons m _ ms _ answers _ ih =>
    intro properties required p hM hp hl
    obtain ⟨hmet, hencloses⟩ := hM m List.mem_cons_self
    obtain ⟨r, hr⟩ := answers hp hencloses hl hk
    have found := hf hmet hr hp hencloses
    have rest : ∀ m' ∈ ms, M m'.type ∧ r.registry.Encloses w o M m'.type := by
      intro m' hm'
      obtain ⟨hmet', hencloses'⟩ := hM m' (List.mem_cons_of_mem _ hm')
      exact ⟨hmet', hencloses'.of_resolving found.grows.resolving⟩
    obtain ⟨out, q, hq⟩ := ih rest found.faithful (hl.mono found.grows)
    exact ⟨out, q, bind_ok.2 ⟨_, _, hr, hq⟩⟩

include closed in
/-- Building a model takes its name from those that are missing. -/
theorem buildModel_answers (hf : Follows w o M f) (ht : w.Names o M name t fields)
    (h : List.Forall₂ (fun m s => Answers w o M whole k f m.type s) fields schemas)
    (hp : p.registry.Faithful w o M) (he : p.registry.Encloses w o M t)
    (hl : whole.Lacks p.registry names) (hk : names.length < k + 1) (hname : name ∈ names) :
    ∃ q, buildModel f t.bare name fields p = .ok () q := by
  have fewer : (names.erase name).length < k := by
    rw [List.length_erase_of_mem hname]
    have := List.length_pos_of_mem hname
    omega
  obtain ⟨⟨properties, required⟩, r, hr⟩ := resolveFields_answers hf h fewer
    (p := { p with registry.resolving := name :: p.registry.resolving })
    (fields_enclosed closed ht he) (hp.push name) (hl.push name)
  exact ⟨_, buildModel_iff.2 ⟨properties, required, r, hr, rfl⟩⟩

include closed apart in
/-- A type whose models a complete registry has is resolved from every faithful registry. The outer
induction is on the number of models that are missing, the inner one on what the type denotes. -/
theorem resolveWithin_answers (hwhole : whole.Faithful w o M) (hdone : whole.resolving = [])
    (k : Nat) (ht : M t) (hd : w.Denotes o t s) (hc : whole.CoversType w o t) :
    FromSome fun bound => Answers w o M whole k (resolveWithin w bound) t s := by
  induction k generalizing t s with
  | zero => exact ⟨0, fun _ _ _ _ _ _ _ h => absurd h (Nat.not_lt_zero _)⟩
  | succ k ihk =>
    induction hd using World.Denotes.induct with
    | flat h =>
      refine .succ ⟨0, fun bound _ p names hp _ _ _ => ?_⟩
      obtain ⟨notices, hq⟩ :=
        resolveShape_of_flat (f := resolveWithin w bound) (hp.overrides.symm ▸ h)
      exact ⟨_, hq⟩
    | part hu _ ih =>
      obtain ⟨N, hN⟩ := ih (closed ht (.part hu)) (hc.part hu)
      refine .succ ⟨N, fun bound hb p names hp he hl hk => ?_⟩
      obtain ⟨q, hq⟩ := hN bound hb hp (he.descends (.part hu)) hl hk
      refine ⟨q, ?_⟩
      change resolveShape w (resolveWithin w bound) _ p = _
      rw [resolveShape_of_part (hp.overrides.symm ▸ hu), hp.overrides]
      exact bind_of_ok hq
    | @object t fields name h hn =>
      obtain ⟨name', _, schemas, hm, holds⟩ :=
        hwhole.exists_holds_of_covers apart hdone ht h hc
      obtain rfl : name = name' := Except.ok.inj (hn.symm.trans holds.named)
      have hhas : whole.models.has name = true := by rw [Table.has, hm]; rfl
      have fieldwise : List.Forall₂ (fun m s => FromSome fun bound =>
          Answers w o M whole k (resolveWithin w bound) m.type s) fields schemas :=
        (holds.forall₂ closed).imp fun m s hms => ihk hms.1.1 hms.2 hms.1.2
      obtain ⟨N, hN⟩ := FromSome.forall₂ fieldwise
      refine .succ ⟨N, fun bound hb p names hp he hl hk => ?_⟩
      change ∃ q, resolveShape w (resolveWithin w bound) t p = _
      rw [resolveShape_of_model (hp.overrides.symm ▸ h.shape)]
      by_cases known : p.registry.Known name
      · exact ⟨p, resolveModel_known apart ht h.shape hn hp he h known⟩
      · obtain ⟨q, hq⟩ := buildModel_answers closed (resolveWithin_follows closed apart bound)
          ⟨ht, h, hn⟩ (hN bound hb) hp he hl hk ((hl name hhas).resolve_left known)
        refine ⟨q, ?_⟩
        rw [resolveModel_new apart ht h.shape hn hp he h known]
        exact bind_ok.2 ⟨(), q, hq, rfl⟩
    | @fieldless t name reason h hn hf =>
      refine .succ ⟨0, fun bound _ p names hp he _ _ => ?_⟩
      change ∃ q, resolveShape w (resolveWithin w bound) t p = _
      rw [resolveShape_of_model (hp.overrides.symm ▸ h),
        resolveModel_fieldless apart ht h hn hp he hf]
      exact ⟨_, rfl⟩

end Run

namespace Registry.Faithful

include closed apart in
/-- What a type denotes is what fresh resolvers find, when a complete registry covers it. -/
theorem resolves (h : whole.Faithful w o M) (hdone : whole.resolving = []) (ht : M t)
    (hd : w.Denotes o t s) (hc : whole.CoversType w o t) : w.Resolves o t s where
  found := by
    obtain ⟨N, hN⟩ := Run.resolveWithin_answers closed apart h hdone
      (whole.models.keys.length + 1) ht hd hc
    refine ⟨N, fun bound hb p hp => ?_⟩
    have empty : p.registry.Faithful w o M := hp ▸ .start
    have idle : p.registry.Encloses w o M t := Registry.encloses_of_done (by rw [hp])
    have missing : whole.Lacks p.registry whole.models.keys :=
      fun n hn => .inr (Table.has_iff_mem_keys.1 hn)
    exact hN bound hb empty idle missing (Nat.lt_succ_self _)
  only bound p q s' hp hs := by
    have empty : p.registry.Faithful w o M := hp ▸ .start
    have idle : p.registry.Encloses w o M t := Registry.encloses_of_done (by rw [hp])
    exact (Run.resolveWithin_follows closed apart bound ht hs empty idle).denotes.unique hd

include apart in
/-- A complete registry that has the model of an object type has those of the types of its
fields. -/
theorem covers_descends (h : r.Faithful w o M) (hdone : r.resolving = []) (ht : M t)
    (hd : w.Descends o t u) (hc : r.CoversType w o t) : r.CoversType w o u := by
  cases hd with
  | part hp => exact hc.part hp
  | field hfields hf =>
    obtain ⟨_, _, _, _, holds⟩ := h.exists_holds_of_covers apart hdone ht hfields hc
    exact holds.covers _ hf

include closed apart in
/-- So it has those of all object types that the type leads to. -/
theorem covers_below (h : r.Faithful w o M) (hdone : r.resolving = []) (ht : M t)
    (hc : r.CoversType w o t) (hu : Relation.ReflTransGen (w.Descends o) t u) :
    M u ∧ r.CoversType w o u := by
  induction hu with
  | refl => exact ⟨ht, hc⟩
  | tail _ hd ih => exact ⟨closed ih.1 hd, h.covers_descends apart hdone ih.1 hd ih.2⟩

end Registry.Faithful

include closed apart in
/-- Resolving types one after the other leads to faithful registries in which nothing is being
built. -/
theorem World.Reached.faithful {ts : List TypeExpr} (h : w.Reached o ts r) (ht : ∀ t ∈ ts, M t) :
    r.Faithful w o M ∧ r.resolving = [] := by
  induction h with
  | start => exact ⟨.start, rfl⟩
  | resolve _ hs ih =>
    obtain ⟨hp, hdone⟩ := ih fun t h => ht t (List.mem_cons_of_mem _ h)
    have found := Run.resolveWithin_follows closed apart _ (ht _ List.mem_cons_self) hs hp
      (Registry.encloses_of_done hdone)
    exact ⟨found.faithful, found.grows.resolving.trans hdone⟩

end Invariant

/-- The registry is what its types denote. Where the names of the types that resolution comes to are
apart, it finds for a type what fresh resolvers find, whatever has been resolved before; and then
each object type below the type has the model that its fields make with what fresh resolvers find
for their types, also where the way to it runs in circles. -/
theorem Run.registry_denotes {ts : List TypeExpr} {bound : Nat} {p q : Progress}
    (hp : w.Reached o ts p.registry) (h : resolveWithin w bound t p = .ok s q)
    (apart : w.NamesApart o (w.Met o (t :: ts))) :
    w.Resolves o t s ∧
      ∀ (u : TypeExpr) (fields : List ModelField), Relation.ReflTransGen (w.Descends o) t u →
        w.HasFields o u fields →
        ∃ name schemas, w.modelName u.bare = .ok name ∧
          List.Forall₂ (fun f s => w.Resolves o f.type s) fields schemas ∧
          q.registry.models.get? name = some (World.modelOf name fields schemas) := by
  have closed {t' u' : TypeExpr} (ht : w.Met o (t :: ts) t') (hd : w.Descends o t' u') :
      w.Met o (t :: ts) u' := ht.trans (.single hd)
  have met : w.Met o (t :: ts) t := .of_mem List.mem_cons_self
  obtain ⟨faithful, done⟩ := hp.faithful closed apart fun t' ht' =>
    .of_mem (List.mem_cons_of_mem _ ht')
  have found := resolveWithin_follows closed apart bound met h faithful
    (Registry.encloses_of_done done)
  have done' : q.registry.resolving = [] := found.grows.resolving.trans done
  have resolves {t' : TypeExpr} {s' : Schema} (ht : w.Met o (t :: ts) t')
      (hd : w.Denotes o t' s') (hc : q.registry.CoversType w o t') : w.Resolves o t' s' :=
    found.faithful.resolves closed apart done' ht hd hc
  refine ⟨resolves met found.denotes found.covers, fun u fields hu hfields => ?_⟩
  have below : w.Met o (t :: ts) u ∧ q.registry.CoversType w o u := by
    clear hfields
    induction hu with
    | refl => exact ⟨met, found.covers⟩
    | tail _ hd ih =>
      exact ⟨closed ih.1 hd, found.faithful.covers_descends apart done' ih.1 hd ih.2⟩
  obtain ⟨hmet, hcovers⟩ := below
  obtain ⟨name, model, schemas, hm, holds⟩ :=
    found.faithful.exists_holds_of_covers apart done' hmet hfields hcovers
  refine ⟨name, schemas, holds.named, ?_, by rw [hm, holds.model]⟩
  exact (holds.forall₂ closed).imp fun f s' hf => resolves hf.1.1 hf.2 hf.1.2

namespace World

def nodeFields : List ModelField := [
  { name := "next", type := .union [.declared 0, .noneType], required := true },
  { name := "tree", type := .declared 1, required := true }]

def treeFields : List ModelField := [
  { name := "nodes", type := .applied (.builtin .list) [.declared 0], required := true }]

theorem mutualModels_node : mutualModels.HasFields [] (.declared 0) nodeFields := ⟨rfl, rfl⟩

theorem mutualModels_tree : mutualModels.HasFields [] (.declared 1) treeFields := ⟨rfl, rfl⟩

/-- The types that nodes and trees are made of. -/
theorem mutualModels_met {t : TypeExpr}
    (h : mutualModels.Met [] [.declared 0, .declared 1] t) :
    t = .declared 0 ∨ t = .declared 1 ∨ t = .union [.declared 0, .noneType] ∨
      t = .applied (.builtin .list) [.declared 0] := by
  obtain ⟨root, hroot, h⟩ := h
  induction h with
  | refl =>
    rcases List.mem_cons.1 hroot with rfl | hroot
    · exact .inl rfl
    · exact .inr (.inl (List.mem_singleton.1 hroot))
  | tail _ hd ih =>
    cases hd with
    | part hp =>
      rcases ih with rfl | rfl | rfl | rfl
      · cases hp
      · cases hp
      · exact .inl (Option.some.inj hp).symm
      · exact .inl (Option.some.inj hp).symm
    | field hfields hf =>
      rcases ih with rfl | rfl | rfl | rfl
      · rw [hfields.unique mutualModels_node rfl] at hf
        rcases List.mem_cons.1 hf with rfl | hf
        · exact .inr (.inr (.inl rfl))
        · rw [List.mem_singleton.1 hf]
          exact .inr (.inl rfl)
      · rw [hfields.unique mutualModels_tree rfl] at hf
        rw [List.mem_singleton.1 hf]
        exact .inr (.inr (.inr rfl))
      · cases hfields.shape
      · cases hfields.shape

theorem mutualModels_apart :
    mutualModels.NamesApart [] (mutualModels.Met [] [.declared 0, .declared 1]) := by
  have named {name : String} {t : TypeExpr} {fields : List ModelField}
      (h : mutualModels.Names [] (mutualModels.Met [] [.declared 0, .declared 1]) name t fields) :
      (t = .declared 0 ∧ "app.Node" = name) ∨ (t = .declared 1 ∧ "app.Tree" = name) := by
    rcases mutualModels_met h.met with rfl | rfl | rfl | rfl
    · exact .inl ⟨rfl, Except.ok.inj h.named⟩
    · exact .inr ⟨rfl, Except.ok.inj h.named⟩
    · cases h.object.shape
    · cases h.object.shape
  constructor
  · intro t u fields fields' name ht hu
    rcases named ht with ⟨rfl, hn⟩ | ⟨rfl, hn⟩ <;> rcases named hu with ⟨rfl, hn'⟩ | ⟨rfl, hn'⟩
    · rfl
    · exact absurd (hn.trans hn'.symm) (by decide)
    · exact absurd (hn.trans hn'.symm) (by decide)
    · rfl
  · intro t u fields name ht hu hs hn
    rcases mutualModels_met (ht.met.trans hu) with rfl | rfl | rfl | rfl
    · exact ⟨_, mutualModels_node⟩
    · exact ⟨_, mutualModels_tree⟩
    · cases hs
    · cases hs

end World

theorem Run.registry_denotes_mutualModels :
    ∃ s s' p q, resolve World.mutualModels (.declared 1) {} = .ok s p ∧
      resolve World.mutualModels (.declared 0) p = .ok s' q ∧
      World.mutualModels.Resolves [] (.declared 0) s' ∧
      ∃ schemas,
        List.Forall₂ (fun f s => World.mutualModels.Resolves [] f.type s) World.treeFields schemas ∧
        q.registry.models.get? "app.Tree" =
          some (World.modelOf "app.Tree" World.treeFields schemas) := by
  have both : (observe (do
      let _ ← resolve World.mutualModels (.declared 1)
      resolve World.mutualModels (.declared 0)) fun _ => ()) = some () := by decide +kernel
  obtain ⟨s', q, hrun, _⟩ := observe_some both
  obtain ⟨s, p, htree, hnode⟩ := bind_ok.1 hrun
  obtain ⟨resolves, models⟩ := registry_denotes (.resolve (p := {}) .start htree) hnode
    World.mutualModels_apart
  have descends : World.mutualModels.Descends [] (.declared 0) (.declared 1) :=
    .field World.mutualModels_node (List.mem_cons_of_mem _ List.mem_cons_self)
  obtain ⟨name, schemas, hn, hs, hm⟩ := models (.declared 1) World.treeFields (.single descends)
    World.mutualModels_tree
  have hname : name = "app.Tree" := Except.ok.inj (hn.symm.trans rfl)
  exact ⟨s, s', p, q, htree, hnode, resolves, schemas, hs, hname ▸ hm⟩

/-- Two classes with one qualified name; the one without fields is the type of a field of the
other. -/
def World.blankItem : World where
  decls := [
    .cls {
      name := "Item"
      qualname := "Item"
      above := [.builtin .object] },
    .cls {
      name := "Item"
      qualname := "Item"
      above := [.builtin .object]
      annotations := [("blank", .declared 0)] }]
  names := [("Blank", .declared 0), ("Item", .declared 1)]

/-- Names of object types alone are not enough: the only object type has the name of a class without
fields, and a field of that class becomes a reference to the object type that is being built, where
a resolver that is asked for the class finds an object without known properties. -/
theorem World.blankItem_refers :
    (∀ (t u : TypeExpr) (fields fields' : List ModelField) (name : String),
      blankItem.Names [] (blankItem.Met [] [.declared 1]) name t fields →
      blankItem.Names [] (blankItem.Met [] [.declared 1]) name u fields' → t.bare = u.bare) ∧
    (∃ q, Run.resolve blankItem (.declared 0) {} = .ok .opaqueObject q) ∧
    ∃ p fields, Run.resolve blankItem (.declared 1) {} = .ok (.refTo "app.Item") p ∧
      blankItem.HasFields [] (.declared 1) fields ∧ fields.map ModelField.type = [.declared 0] ∧
      p.registry.models.get? "app.Item" = some (modelOf "app.Item" fields [.refTo "app.Item"]) ∧
      ¬ ∃ schemas, List.Forall₂ (fun f s => blankItem.Resolves [] f.type s) fields schemas ∧
        p.registry.models.get? "app.Item" = some (modelOf "app.Item" fields schemas) := by
  have object : blankItem.HasFields [] (.declared 1)
      [{ name := "blank", type := .declared 0, required := true }] := ⟨rfl, rfl⟩
  have fieldless (fields : List ModelField) : ¬ blankItem.HasFields [] (.declared 0) fields :=
    fun h => by cases h.found
  have met {t : TypeExpr} (h : blankItem.Met [] [.declared 1] t) :
      t = .declared 1 ∨ t = .declared 0 := by
    obtain ⟨root, hroot, h⟩ := h
    induction h with
    | refl => exact .inl (List.mem_singleton.1 hroot)
    | tail _ hd ih =>
      rcases ih with rfl | rfl
      · cases hd with
        | part hp => cases hp
        | field hfields hf =>
          rw [hfields.unique object rfl] at hf
          rw [List.mem_singleton.1 hf]
          exact .inr rfl
      · cases hd with
        | part hp => cases hp
        | field hfields _ => exact absurd hfields (fieldless _)
  have sole {t : TypeExpr} {name : String} {fields : List ModelField}
      (h : blankItem.Names [] (blankItem.Met [] [.declared 1]) name t fields) :
      t = .declared 1 := by
    refine (met h.met).resolve_right ?_
    rintro rfl
    exact fieldless fields h.object
  refine ⟨fun t u _ _ _ ht hu => ?_, ⟨_, rfl⟩, _, _, rfl, object, rfl, rfl, ?_⟩
  · rw [sole ht, sole hu]
  · rintro ⟨schemas, hschemas, hmodel⟩
    cases hschemas with
    | cons hs hrest =>
      cases hrest
      obtain rfl := hs.only Run.nestingBound {} _ .opaqueObject rfl rfl
      cases hmodel

end ApiCompiler
