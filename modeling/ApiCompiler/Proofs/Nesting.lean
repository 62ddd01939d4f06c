import ApiCompiler.Proofs.ClassFields
import ApiCompiler.Proofs.FreshResolver
import ApiCompiler.Proofs.Layers
import ApiCompiler.Proofs.ModelNames
import ApiCompiler.Proofs.NewModels

/-!
# How deep resolutions nest

A resolution that is cut off at some depth may come to its end when it may go deeper, and what it
comes to then does not depend on the depth. It does end when the object types that it comes to have
finitely many model names: each model that is begun takes one of the names, and between two models
the type gets smaller. Where a generic class mentions ever larger applications of itself the names
do not run out, and resolution goes on for ever.
-/

set_option autoImplicit false

namespace ApiCompiler

namespace Run

section Deepening

variable {α β : Type} {w : World} {f g : TypeExpr → Run Schema}

/-- Where the first step is not cut off, the second one does the same. -/
def Deepens (x y : Run α) : Prop := ∀ p, (∀ q, x p ≠ .error .endless q) → y p = x p

theorem Deepens.refl (x : Run α) : Deepens x x := fun _ _ => rfl

theorem Deepens.bind {x y : Run α} {k l : α → Run β} (hx : Deepens x y)
    (hk : ∀ a, Deepens (k a) (l a)) : Deepens (x >>= k) (y >>= l) := by
  intro p h
  cases hp : x p with
  | ok a q =>
    have hy : y p = .ok a q := (hx p fun _ hq => nomatch hp.symm.trans hq).trans hp
    rw [bind_of_ok hp] at h ⊢
    rw [bind_of_ok hy]
    exact hk a q h
  | error e q =>
    rw [bind_of_error hp] at h
    have cut : ∀ q', x p ≠ .error .endless q' := by
      intro q' hq
      cases hp.symm.trans hq
      exact h q rfl
    rw [bind_of_error hp, bind_of_error ((hx p cut).trans hp)]

theorem Deepens.guarded {undo : Progress → Progress} {x y : Run α} (hx : Deepens x y) :
    Deepens (guarded undo x) (guarded undo y) := by
  intro p h
  have hp : ∀ q, x p ≠ .error .endless q :=
    fun q hq => h (undo q) (guarded_error.2 ⟨q, hq, rfl⟩)
  unfold Run.guarded
  rw [hx p hp]

theorem resolveFields_deepens (hf : ∀ t, Deepens (f t) (g t)) (fields : List ModelField) :
    ∀ properties required, Deepens (resolveFields f fields properties required)
      (resolveFields g fields properties required) := by
  induction fields with
  | nil => intro _ _; exact .refl _
  | cons m ms ih => intro _ _; exact (hf m.type).bind fun _ => ih _ _

theorem buildModel_deepens (hf : ∀ t, Deepens (f t) (g t)) (t : TypeExpr) (name : String)
    (fields : List ModelField) :
    Deepens (buildModel f t name fields) (buildModel g t name fields) := by
  refine (Deepens.refl _).bind fun _ => (Deepens.refl _).bind fun _ => ?_
  refine Deepens.bind ?_ fun _ => .refl _
  exact ((resolveFields_deepens hf fields _ _).bind fun _ => .refl _).guarded

theorem resolveModel_deepens (hf : ∀ t, Deepens (f t) (g t)) (t : TypeExpr) :
    Deepens (resolveModel w f t) (resolveModel w g t) := by
  intro p h
  cases hn : w.modelName t with
  | error e => rw [resolveModel_nameless hn, resolveModel_nameless hn]
  | ok name =>
    rw [resolveModel_apply hn] at h ⊢
    rw [resolveModel_apply hn]
    split at h
    · rw [if_pos ‹_›, if_pos ‹_›]
    · rw [if_neg ‹_›, if_neg ‹_›]
      cases hfields : w.fieldsOf t with
      | error reason => rfl
      | ok fields =>
        rw [hfields] at h
        exact (buildModel_deepens hf t name fields).bind (fun _ => .refl _) p h

theorem resolveShape_deepens (hf : ∀ t, Deepens (f t) (g t)) (t : TypeExpr) :
    Deepens (resolveShape w f t) (resolveShape w g t) := by
  intro p h
  rcases w.shape_cases p.registry.overrides t with ⟨u, hu⟩ | hm | ⟨s, hs⟩
  · rw [resolveShape_of_part hu] at h ⊢
    rw [resolveShape_of_part hu]
    exact (hf u).bind (fun _ => .refl _) p h
  · rw [resolveShape_of_model hm] at h ⊢
    rw [resolveShape_of_model hm]
    exact resolveModel_deepens hf t.bare p h
  · unfold resolveShape
    rw [bind_of_ok (get_apply p), bind_of_ok (get_apply p)]
    cases hshape : w.shape p.registry.overrides t with
    | fixed | unmappable => rfl
    | array item =>
      rw [hshape] at hs
      cases item with
      | none => rfl
      | some _ => cases hs
    | map value =>
      rw [hshape] at hs
      cases value with
      | none => rfl
      | some _ => cases hs
    | alike | model =>
      rw [hshape] at hs
      cases hs

/-- A resolution that is not cut off is the same when it may go deeper. -/
theorem resolveWithin_mono {bound bound' : Nat} (hle : bound ≤ bound') (t : TypeExpr) :
    Deepens (resolveWithin w bound t) (resolveWithin w bound' t) := by
  induction bound generalizing bound' t with
  | zero => exact fun p h => absurd rfl (h p)
  | succ bound ih =>
    obtain ⟨b, rfl⟩ : ∃ b, bound' = b + 1 := ⟨bound' - 1, by omega⟩
    exact resolveShape_deepens (fun u => ih (by omega) u) t

end Deepening

end Run

theorem FromSome.forall_mem {α : Type} {P : Nat → α → Prop} {xs : List α}
    (h : ∀ x ∈ xs, FromSome fun bound => P bound x) :
    FromSome fun bound => ∀ x ∈ xs, P bound x := by
  induction xs with
  | nil => exact ⟨0, fun _ _ => nofun⟩
  | cons x xs ih =>
    obtain ⟨N, hN⟩ := h x List.mem_cons_self
    obtain ⟨N', hN'⟩ := ih fun y hy => h y (List.mem_cons_of_mem _ hy)
    refine ⟨max N N', fun bound hb y hy => ?_⟩
    rcases List.mem_cons.1 hy with rfl | hy
    · exact hN bound (by omega)
    · exact hN' bound (by omega) y hy

section Names

variable {w : World} {o : Overrides} {M : TypeExpr → Prop} {t : TypeExpr} {names : List String}

/-- The object types that resolution comes to from a type have model names of a list. -/
def World.NamedIn (w : World) (o : Overrides) (t : TypeExpr) (names : List String) : Prop :=
  ∀ (u : TypeExpr) (fields : List ModelField) (name : String), w.Met o [t] u →
    w.HasFields o u fields → w.modelName u.bare = .ok name → name ∈ names

namespace Run

/-- A resolver is not cut off where fewer than so many names are left for models to be begun. -/
def EndsWith (o : Overrides) (names : List String) (k : Nat) (f : TypeExpr → Run Schema)
    (t : TypeExpr) : Prop :=
  ∀ ⦃p : Progress⦄ ⦃left : List String⦄, p.registry.overrides = o →
    (∀ n ∈ names, n ∈ p.registry.resolving ∨ n ∈ left) → left.length < k →
    ∀ q, f t p ≠ .error .endless q

theorem resolveFields_ends {bound k : Nat} {fields : List ModelField}
    (h : ∀ f ∈ fields, EndsWith o names k (resolveWithin w bound) f.type)
    {left : List String} (hk : left.length < k) :
    ∀ {properties : Table Schema} {required : List String} {p : Progress},
      p.registry.overrides = o → (∀ n ∈ names, n ∈ p.registry.resolving ∨ n ∈ left) →
      ∀ q, resolveFields (resolveWithin w bound) fields properties required p ≠
        .error .endless q := by
  induction fields with
  | nil => exact fun _ _ q h => nomatch h
  | cons m ms ih =>
    intro properties required p ho hl q hq
    rcases bind_error.1 hq with hq | ⟨s, r, hs, hq⟩
    · exact h m List.mem_cons_self ho hl hk q hq
    · have kept := resolveWithin_evolves w hs
      refine ih (fun f hf => h f (List.mem_cons_of_mem _ hf)) (kept.overrides.trans ho) ?_ q hq
      rw [kept.resolving]
      exact hl

/-- Beginning a model takes its name from those that are left. -/
theorem resolveModel_ends {bound k : Nat}
    (h : ∀ fields, w.fieldsOf t = .ok fields →
      ∀ f ∈ fields, EndsWith o names k (resolveWithin w bound) f.type)
    (named : ∀ fields name, w.fieldsOf t = .ok fields → w.modelName t = .ok name →
      name ∈ names) : EndsWith o names (k + 1) (resolveModel w (resolveWithin w bound)) t := by
  intro p left ho hl hk q hq
  rcases resolveModel_error hq with hn | ⟨name, fields, r, hn, new, hf, hr⟩
  · cases World.modelName_failure hn
  · have mem : name ∈ left := (hl name (named fields name hf hn)).resolve_left new
    have shorter : (left.erase name).length < k := by
      rw [List.length_erase_of_mem mem]
      have := List.length_pos_of_mem mem
      omega
    have rest : ∀ n ∈ names, n ∈ (p.building name).registry.resolving ∨ n ∈ left.erase name := by
      intro n hnames
      by_cases h : n = name
      · exact .inl (h ▸ List.mem_cons_self)
      · exact (hl n hnames).imp (List.mem_cons_of_mem _) (List.mem_erase_of_ne h).2
    exact resolveFields_ends (h fields hf) shorter (p := p.building name) ho rest r hr

/-- A type from which the names do not run out is resolved without being cut off. The outer
induction is on the number of names that are left, the inner one on the chain of types that the
schema is made from. -/
theorem resolveWithin_ends (chains : WellFounded fun u t => w.PartOf o t u)
    (closed : ∀ {t u : TypeExpr}, M t → w.Descends o t u → M u)
    (named : ∀ t fields name, M t → w.HasFields o t fields → w.modelName t.bare = .ok name →
      name ∈ names) (k : Nat) (t : TypeExpr) (ht : M t) :
    FromSome fun bound => EndsWith o names k (resolveWithin w bound) t := by
  induction k generalizing t with
  | zero => exact ⟨0, fun _ _ _ _ _ _ h => absurd h (Nat.not_lt_zero _)⟩
  | succ k fewer =>
    induction t using chains.induction with
    | _ t ih =>
      rcases w.shape_cases o t with ⟨u, hu⟩ | hm | ⟨s, hs⟩
      · obtain ⟨N, hN⟩ := ih u hu (closed ht (.part hu))
        refine .succ ⟨N, fun bound hb p left ho hl hk q hq => ?_⟩
        change resolveShape w (resolveWithin w bound) t p = _ at hq
        rw [resolveShape_of_part (ho.symm ▸ hu)] at hq
        rcases bind_error.1 hq with hq | ⟨_, _, _, hq⟩
        · exact hN bound hb ho hl hk q hq
        · cases hq
      · obtain ⟨N, hN⟩ : FromSome fun bound => ∀ fields, w.fieldsOf t.bare = .ok fields →
            ∀ f ∈ fields, EndsWith o names k (resolveWithin w bound) f.type := by
          cases hf : w.fieldsOf t.bare with
          | error reason => exact ⟨0, fun _ _ _ h => nomatch h⟩
          | ok fields =>
            obtain ⟨N, hN⟩ := FromSome.forall_mem fun f (hmem : f ∈ fields) =>
              fewer f.type (closed ht (.field ⟨hm, hf⟩ hmem))
            exact ⟨N, fun bound hb _ h => Except.ok.inj h ▸ hN bound hb⟩
        refine .succ ⟨N, fun bound hb p left ho hl hk q hq => ?_⟩
        change resolveShape w (resolveWithin w bound) t p = _ at hq
        rw [resolveShape_of_model (ho.symm ▸ hm)] at hq
        exact resolveModel_ends (hN bound hb)
          (fun fields name hf hn => named t fields name ht ⟨hm, hf⟩ hn) ho hl hk q hq
      · refine .succ ⟨0, fun bound _ p left ho _ _ q hq => ?_⟩
        obtain ⟨notices, h⟩ := resolveShape_of_flat (f := resolveWithin w bound) (ho.symm ▸ hs)
        cases h.symm.trans hq

/-- A fresh resolver that returns has a model for each name that it has come to, where names tell
object types apart. -/
theorem namedIn_of_ok {bound : Nat} {p q : Progress} {s : Schema}
    (apart : w.NamesApart o (w.Met o [t])) (hp : p.registry = { overrides := o })
    (h : resolveWithin w bound t p = .ok s q) : w.NamedIn o t q.registry.models.keys := by
  have closed {t' u' : TypeExpr} (ht : w.Met o [t] t') (hd : w.Descends o t' u') :
      w.Met o [t] u' := ht.trans (.single hd)
  have met : w.Met o [t] t := .of_mem List.mem_cons_self
  have empty : p.registry.Faithful w o (w.Met o [t]) := hp ▸ .start
  have idle : p.registry.resolving = [] := by rw [hp]
  have found := resolveWithin_follows closed apart bound met h empty
    (Registry.encloses_of_done idle)
  have done : q.registry.resolving = [] := found.grows.resolving.trans idle
  intro u fields name hu hf hn
  obtain ⟨root, hroot, hu⟩ := hu
  obtain rfl := List.mem_singleton.1 hroot
  obtain ⟨hmet, hcovers⟩ := found.faithful.covers_below closed apart done met found.covers hu
  obtain ⟨name', _, _, hm, holds⟩ :=
    found.faithful.exists_holds_of_covers apart done hmet hf hcovers
  obtain rfl : name = name' := Except.ok.inj (hn.symm.trans holds.named)
  refine Table.has_iff_mem_keys.1 ?_
  rw [Table.has, hm]
  rfl

end Run

end Names

namespace World

section Plain

variable {w : World} {o : Overrides} {t u cls : TypeExpr} {fields : List ModelField}

/-- No declared class is generic. -/
def Plain (w : World) : Prop := ∀ i c, w.class? i = some c → c.typeVars = []

theorem Plain.parameters (hw : w.Plain) (i : Nat) : w.parameters (.declared i) = [] := by
  show ((w.class? i).map ClassDecl.typeVars).getD [] = []
  cases h : w.class? i with
  | none => rfl
  | some c => exact hw i c h

/-- Without type variables arguments change nothing. -/
theorem applyArguments_of_noParameters {args : List TypeExpr} (h : w.parameters cls = []) :
    w.applyArguments cls args t = t := by
  unfold applyArguments
  split
  · rfl
  · rw [h]
    exact substitute_unbound t

theorem declaredLineage_builtin (c : Builtin) : w.declaredLineage (.builtin c) = [] := by
  refine List.filterMap_eq_nil_iff.2 fun t ht => ?_
  unfold lineage at ht
  rcases List.mem_append.1 ht with ht | ht
  · rcases List.mem_cons.1 ht with rfl | ht
    · rfl
    · obtain ⟨d, _, rfl⟩ := List.mem_map.1 ht
      rfl
  · split at ht
    · cases ht
    · rw [List.mem_singleton.1 ht]

theorem declaredLineage_outside {i : Nat} (h : w.class? i = none) :
    w.declaredLineage (.declared i) = [] := by
  simp [declaredLineage, lineage, h]

/-- A model class that is filled in has the same fields as when nothing is filled in. -/
theorem Plain.classFields_filled (hw : w.Plain) {i : Nat} (xs ys : List TypeExpr) :
    w.classFields (.filled i xs) = w.classFields (.filled i ys) := by
  have tables : w.modelFieldsOf (.filled i xs) = w.modelFieldsOf (.filled i ys) := by
    cases h : w.class? i with
    | none => simp only [modelFieldsOf, h]
    | some c =>
      simp only [modelFieldsOf, h, hw i c h]
      rfl
  have annotated (hints : Table TypeExpr) : w.annotatedFields (.filled i xs) hints =
      w.annotatedFields (.filled i ys) hints := annotatedFields_filled hints
  simp only [classFields, isModel, annotationsOf, declaredLineage_filled, tables, annotated]

/-- The classes that a type of a world without generic classes can have its fields from. -/
def sources (w : World) : List TypeExpr :=
  (List.range w.decls.length).flatMap fun i => [.declared i, .filled i []]

theorem Plain.fieldsOf (hw : w.Plain) (h : w.fieldsOf t = .ok fields) :
    ∃ c ∈ w.sources, w.fieldsOf c = .ok fields := by
  obtain ⟨cls, own, hc, hown, nonempty, rfl⟩ := fieldsOf_ok_iff.1 h
  have hclass := isClass_of_fieldClass hc
  have unchanged (args : List TypeExpr) (hp : w.parameters cls = []) :
      (own.map fun f => { f with type := w.applyArguments cls args f.type }) = own := by
    simp only [applyArguments_of_noParameters hp, List.map_id']
  have inside {i : Nat} (hi : w.declaredLineage (.declared i) ≠ []) : i < w.decls.length := by
    refine Nat.lt_of_not_le fun hle => hi (declaredLineage_outside ?_)
    unfold class?
    rw [List.getElem?_eq_none hle]
  have declared : w.declaredLineage cls ≠ [] := by
    intro hl
    rw [classFields_undeclared hl] at hown
    exact nonempty (Except.ok.inj hown).symm
  have given {c : TypeExpr} (hc : c.isClass = true) (hfields : w.classFields c = .ok own)
      (hp : w.parameters c = []) : w.fieldsOf c = .ok own := by
    refine fieldsOf_ok_iff.2 ⟨c, own, (fieldClass_of_isClass hc).1, hfields, nonempty, ?_⟩
    simp only [applyArguments_of_noParameters hp, List.map_id']
  cases cls with
  | builtin c => exact absurd (declaredLineage_builtin c) declared
  | declared i =>
    refine ⟨.declared i, List.mem_flatMap.2 ⟨i, List.mem_range.2 (inside declared),
      List.mem_cons_self⟩, ?_⟩
    rw [unchanged _ (hw.parameters i)]
    exact given rfl hown (hw.parameters i)
  | filled i args =>
    rw [declaredLineage_filled] at declared
    refine ⟨.filled i [], List.mem_flatMap.2 ⟨i, List.mem_range.2 (inside declared),
      List.mem_cons_of_mem _ List.mem_cons_self⟩, ?_⟩
    rw [unchanged _ rfl]
    exact given rfl ((hw.classFields_filled [] args).trans hown) rfl
  | _ => cases hclass

/-- A chain of types, each made from the next, has finitely many members. -/
theorem exists_chain (chains : WellFounded fun u t => w.PartOf o t u) (t : TypeExpr) :
    ∃ ts : List TypeExpr, ∀ u, Relation.ReflTransGen (w.PartOf o) t u → u ∈ ts := by
  induction t using chains.induction with
  | _ t ih =>
    by_cases h : ∃ u, w.PartOf o t u
    · obtain ⟨u, hu⟩ := h
      obtain ⟨ts, hts⟩ := ih u hu
      refine ⟨t :: ts, fun v hv => ?_⟩
      rcases hv.cases_head with rfl | ⟨u', hu', hv⟩
      · exact List.mem_cons_self
      · obtain rfl := hu.unique hu'
        exact List.mem_cons_of_mem _ (hts v hv)
    · refine ⟨[t], fun v hv => ?_⟩
      rcases hv.cases_head with rfl | ⟨u, hu, _⟩
      · exact List.mem_singleton_self _
      · exact absurd ⟨u, hu⟩ h

/-- In a world without generic classes resolution comes to finitely many types. -/
theorem Plain.exists_met (hw : w.Plain) (chains : WellFounded fun u t => w.PartOf o t u)
    (t : TypeExpr) : ∃ ts : List TypeExpr, ∀ u, w.Met o [t] u → u ∈ ts := by
  choose chain hchain using exists_chain chains
  let roots : List TypeExpr := t :: w.sources.flatMap fun c =>
    match w.fieldsOf c with
    | .ok fields => fields.map ModelField.type
    | .error _ => []
  refine ⟨roots.flatMap chain, fun u hu => ?_⟩
  obtain ⟨root, hroot, hu⟩ := hu
  obtain rfl := List.mem_singleton.1 hroot
  have below : ∃ r ∈ roots, Relation.ReflTransGen (w.PartOf o) r u := by
    induction hu with
    | refl => exact ⟨root, List.mem_cons_self, .refl⟩
    | tail _ hd ih =>
      cases hd with
      | part hp =>
        obtain ⟨r, hr, hu⟩ := ih
        exact ⟨r, hr, hu.tail hp⟩
      | field hfields hf =>
        obtain ⟨c, hc, hfound⟩ := hw.fieldsOf hfields.found
        refine ⟨_, List.mem_cons_of_mem _ (List.mem_flatMap.2 ⟨c, hc, ?_⟩), .refl⟩
        rw [hfound]
        exact List.mem_map_of_mem hf
  obtain ⟨r, hr, hu⟩ := below
  exact List.mem_flatMap.2 ⟨r, hr, hchain r u hu⟩

/-- The names of a finite list of types. -/
theorem exists_namedIn {ts : List TypeExpr} (h : ∀ u, w.Met o [t] u → u ∈ ts) :
    ∃ names, w.NamedIn o t names := by
  refine ⟨ts.filterMap fun u => (w.modelName u.bare).toOption, fun u fields name hu _ hn => ?_⟩
  refine List.mem_filterMap.2 ⟨u, h u hu, ?_⟩
  rw [hn]
  rfl

end Plain

end World

/-- Resolution of a type terminates when the object types that it comes to have finitely many model
names: from some depth on it is not cut off, and what it comes to stays the same. Where names tell
object types apart it returns from a fresh resolver only then. Without generic classes the names are
always finitely many, however the classes refer to one another. -/
theorem Run.resolveWithin_terminates {decls : List Value} {w : World}
    (hw : World.ofDeclarations decls = .ok w) (o : Overrides) (t : TypeExpr) :
    (∀ names, w.NamedIn o t names → ∃ N, ∀ bound, N ≤ bound → ∀ p : Progress,
      p.registry.overrides = o → (∀ q, resolveWithin w bound t p ≠ .error .endless q) ∧
        resolveWithin w bound t p = resolveWithin w N t p) ∧
    (w.NamesApart o (w.Met o [t]) → ∀ (bound : Nat) (p q : Progress) (s : Schema),
      p.registry = { overrides := o } → resolveWithin w bound t p = .ok s q →
      ∃ names, w.NamedIn o t names) ∧
    (w.Plain → ∃ names, w.NamedIn o t names) := by
  have chains := (World.Layered.ofDeclarations hw).partOf_wf o
  have closed {t' u' : TypeExpr} (ht : w.Met o [t] t') (hd : w.Descends o t' u') :
      w.Met o [t] u' := ht.trans (.single hd)
  refine ⟨fun names hnames => ?_, fun apart bound p q s hp h => ?_, fun plain => ?_⟩
  · obtain ⟨N, hN⟩ := resolveWithin_ends chains closed hnames (names.length + 1) t
      (.of_mem List.mem_cons_self)
    have ends (bound : Nat) (hb : N ≤ bound) (p : Progress) (hp : p.registry.overrides = o) :
        ∀ q, resolveWithin w bound t p ≠ .error .endless q :=
      hN bound hb hp (fun n hn => .inr hn) (Nat.lt_succ_self _)
    refine ⟨N, fun bound hb p hp => ⟨ends bound hb p hp, ?_⟩⟩
    exact resolveWithin_mono hb t p (ends N (Nat.le_refl N) p hp)
  · exact ⟨_, namedIn_of_ok apart hp h⟩
  · obtain ⟨ts, hts⟩ := plain.exists_met chains t
    exact World.exists_namedIn hts

namespace World

/-- A class of nodes that refer to nodes. -/
def chainDecls : List Value := [
  .map [(.text "kind", .text "dataclass"), (.text "id", .text "Node"),
    (.text "fields", .list [.map [(.text "name", .text "next"), (.text "type", .text "Node")]])]]

theorem resolveWithin_terminates_chain : ∃ w, ofDeclarations chainDecls = .ok w ∧
    ∃ N, ∀ bound, N ≤ bound → ∀ p : Progress, p.registry.overrides = [] →
      (∀ q, Run.resolveWithin w bound (.declared 0) p ≠ .error .endless q) ∧
        Run.resolveWithin w bound (.declared 0) p = Run.resolveWithin w N (.declared 0) p := by
  obtain ⟨w, hw⟩ : ∃ w, ofDeclarations chainDecls = .ok w := ⟨_, rfl⟩
  have plain : w.Plain := by
    obtain rfl := Except.ok.inj hw
    intro i c h
    match i, h with
    | 0, h =>
      obtain rfl := Option.some.inj h
      rfl
    | i + 1, h => cases h
  obtain ⟨terminates, _, finite⟩ := Run.resolveWithin_terminates hw [] (.declared 0)
  obtain ⟨names, hnames⟩ := finite plain
  exact ⟨w, hw, terminates names hnames⟩

/-- A class of generic nodes: a node of something refers to a node of lists of it. -/
def growingDecls : List Value := [
  .map [(.text "kind", .text "typevar"), (.text "id", .text "T")],
  .map [(.text "kind", .text "dataclass"), (.text "id", .text "Node"),
    (.text "params", .list [.text "T"]),
    (.text "fields", .list [.map [
      (.text "name", .text "next"),
      (.text "type", .map [
        (.text "g", .text "Node"),
        (.text "a", .list [.map [(.text "g", .text "list"), (.text "a", .list [.text "T"])]])])]])]]

def growing : World where
  decls := [
    .typeVar "T",
    .cls {
      name := "Node"
      qualname := "Node"
      kind := .dataclass
      above := [.builtin .object]
      typeVars := [0]
      fields := [
        { name := "next", type := .pending "Node" [.applied (.builtin .list) [.typeVar 0]] }]
      annotations := [("next", .pending "Node" [.applied (.builtin .list) [.typeVar 0]])]
      dataFields := some [
        { name := "next", required := true, description := "", isClassVar := false }] }]
  names := [("T", .typeVar 0), ("Node", .declared 1)]

/-- Lists of lists of numbers. -/
def listsOf : Nat → TypeExpr
  | 0 => .builtin .int
  | n + 1 => .applied (.builtin .list) [listsOf n]

def nodeOf (n : Nat) : TypeExpr := .applied (.declared 1) [listsOf n]

theorem growing_fields (n : Nat) : growing.HasFields [] (nodeOf n)
    [{ name := "next", type := nodeOf (n + 1), required := true }] := ⟨rfl, rfl⟩

theorem text_listsOf (n : Nat) : (growing.text (listsOf n)).toList.length = 6 * n + 3 ∧
    ∀ c ∈ (growing.text (listsOf n)).toList, c ≠ '.' := by
  induction n with
  | zero =>
    have text : growing.text (listsOf 0) = "int" := rfl
    rw [text]
    simp
  | succ n ih =>
    obtain ⟨length, noDot⟩ := ih
    have text : (growing.text (listsOf (n + 1))).toList =
        "list[".toList ++ (growing.text (listsOf n)).toList ++ [']'] := by
      show (inBrackets "list" [growing.text (listsOf n)]).toList = _
      rw [toList_inBrackets (List.cons_ne_nil _ _)]
      simp [commas_singleton]
    have head : ∀ c ∈ "list[".toList, c ≠ '.' := by simp
    rw [text]
    constructor
    · simp only [List.length_append, length]
      show 5 + (6 * n + 3) + 1 = 6 * (n + 1) + 3
      omega
    · intro c hc
      rcases List.mem_append.1 hc with hc | hc
      · exact (List.mem_append.1 hc).elim (head c) (noDot c)
      · rw [List.mem_singleton.1 hc]
        decide

theorem label_listsOf (n : Nat) : growing.label (listsOf n) = growing.text (listsOf n) := by
  cases n with
  | zero => rfl
  | succ n =>
    show String.ofList (cleaned (growing.text (listsOf (n + 1))).toList) = _
    rw [cleaned_of_noDot (text_listsOf _).2, String.ofList_toList]

/-- The names of the nodes get longer and longer. -/
theorem growing_name (n : Nat) : ∃ name, growing.modelName (nodeOf n) = .ok name ∧
    name.toList.length = 6 * n + 13 := by
  refine ⟨inBrackets "app.Node" [growing.label (listsOf n)], rfl, ?_⟩
  rw [toList_inBrackets (List.cons_ne_nil _ _), label_listsOf]
  simp [commas_singleton, (text_listsOf n).1]

/-- While shorter names are being built, resolving a node is cut off at every depth. -/
theorem growing_endless_from (bound n : Nat) (p : Progress) (ho : p.registry.overrides = [])
    (hm : p.registry.models = [])
    (hr : ∀ name ∈ p.registry.resolving, name.toList.length < 6 * n + 13) :
    ∃ q, Run.resolveWithin growing bound (nodeOf n) p = .error .endless q := by
  induction bound generalizing n p with
  | zero => exact ⟨p, rfl⟩
  | succ bound ih =>
    obtain ⟨name, hn, hlength⟩ := growing_name n
    have object := growing_fields n
    have new : ¬ (name ∈ p.registry.resolving ∨
        p.registry.isCurrent name (nodeOf n) = true) := by
      rintro (h | h)
      · exact absurd (hr name h) (by omega)
      · unfold Registry.isCurrent at h
        rw [hm] at h
        cases h
    have building : ∀ m ∈ (p.building name).registry.resolving,
        m.toList.length < 6 * (n + 1) + 13 := by
      intro m hmem
      rcases List.mem_cons.1 hmem with rfl | hmem
      · omega
      · have := hr m hmem
        omega
    obtain ⟨r, hdeeper⟩ := ih (n + 1) (p.building name) ho hm building
    have field : Run.resolveFields (Run.resolveWithin growing bound)
        [{ name := "next", type := nodeOf (n + 1), required := true }] [] [] (p.building name) =
          .error .endless r := Run.bind_of_error hdeeper
    obtain ⟨q, hq⟩ := Run.buildModel_error_iff.2 ⟨r, field⟩
    change ∃ q, Run.resolveShape growing (Run.resolveWithin growing bound) (nodeOf n) p = _
    rw [Run.resolveShape_of_model (ho.symm ▸ object.shape)]
    change ∃ q, Run.resolveModel growing (Run.resolveWithin growing bound) (nodeOf n) p = _
    have found : growing.fieldsOf (nodeOf n) = .ok _ := object.found
    rw [Run.resolveModel_apply hn, if_neg new, found]
    exact ⟨q, Run.bind_of_error hq⟩

/-- A fresh resolver is cut off at every depth: resolving a node of numbers does not terminate. -/
theorem growing_endless : ofDeclarations growingDecls = .ok growing ∧
    ∀ bound, ∃ q, Run.resolveWithin growing bound (.applied (.declared 1) [.builtin .int]) {} =
      .error .endless q :=
  ⟨rfl, fun bound => growing_endless_from bound 0 {} rfl rfl nofun⟩

end World

end ApiCompiler
