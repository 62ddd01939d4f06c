import ApiCompiler.Proofs.FirstOccurrences
import ApiCompiler.Proofs.Merging
import ApiCompiler.Proofs.Sameness

/-!
# Unions of models

Object schemas that are added under one name add up to one definition. It has the properties of all
of them in order of first appearance, each as the last schema that has it says, requires what any of
them requires, and is the last schema otherwise. An addition that is the same as the definition
leaves it alone, and one that is not is united with it; either way this is what results. Adding all
of them again does not change the definition.
-/

set_option autoImplicit false

namespace ApiCompiler

namespace Schema

/-- What a schema says besides its properties and which of them are required. -/
def withoutProperties (s : Schema) : Schema := { s with properties := [], required := [] }

/-- The property of a name in the last schema that has one. -/
def lastProperty (ms : List Schema) (name : String) : Option Schema :=
  ms.reverse.findSome? fun m => Table.get? m.properties name

/-- The schema unites the others: it has their properties in order of first appearance, each one
like that of the last schema that has it, their required names, and is like the last schema
otherwise. -/
structure UnionOf (s : Schema) (ms : List Schema) : Prop where
  names : Table.keys s.properties = (ms.flatMap fun m => Table.keys m.properties).eraseDups
  property : ∀ name r, lastProperty ms name = some r →
    ∃ r', Table.get? s.properties name = some r' ∧ r'.Alike r
  required : ∀ name, name ∈ s.required ↔ ∃ m ∈ ms, name ∈ m.required
  rest : ∀ m, ms.getLast? = some m → s.withoutProperties.Alike m.withoutProperties

/-- Schemas with the same properties in the same order and the same required names, each property
and the rest alike. -/
structure Agrees (s t : Schema) : Prop where
  names : Table.keys s.properties = Table.keys t.properties
  property : ∀ name r, Table.get? s.properties name = some r →
    ∃ r', Table.get? t.properties name = some r' ∧ r.Alike r'
  required : s.required = t.required
  rest : s.withoutProperties.Alike t.withoutProperties

variable {s t m : Schema} {ms : List Schema} {name : String}

/-! ### Properties apart from the rest -/

theorem same_split : s.same t = true ↔
    s.withoutProperties.same t.withoutProperties = true ∧
      s.properties.length = t.properties.length ∧ sameTable s.properties t.properties = true ∧
      s.required = t.required := by
  cases s
  cases t
  simp only [same, withoutProperties, Bool.and_eq_true, beq_iff_eq, sameTable, List.length_nil]
  tauto

theorem keyedTable_iff {t : Table Schema} :
    keyedTable t = true ↔ ∀ e ∈ t, e.2.keyed = true := by
  induction t with
  | nil => simp [keyedTable]
  | cons e t ih => rw [keyedTable, Bool.and_eq_true, ih, List.forall_mem_cons]

theorem keyed_split : s.keyed = true ↔ s.withoutProperties.keyed = true ∧
    Table.Distinct s.properties ∧ ∀ e ∈ s.properties, e.2.keyed = true := by
  rw [← keyedTable_iff]
  cases s
  simp only [keyed, withoutProperties, Bool.and_eq_true, decide_eq_true_eq, keyedTable,
    Table.keys_nil, List.nodup_nil, Table.Distinct]
  tauto

theorem Alike.rest (h : s.Alike t) : s.withoutProperties.Alike t.withoutProperties := by
  rcases h with rfl | h
  · exact .refl _
  · exact .inr (same_split.1 h).1

theorem Alike.required (h : s.Alike t) : s.required = t.required := by
  rcases h with rfl | h
  · rfl
  · exact (same_split.1 h).2.2.2

/-- The first of two schemas that are alike has all properties of the second. -/
theorem Alike.property (h : s.Alike t) (hs : s.keyed = true) {r : Schema}
    (hr : Table.get? t.properties name = some r) :
    ∃ r', Table.get? s.properties name = some r' ∧ r'.Alike r := by
  rcases h with rfl | h
  · exact ⟨r, hr, .refl r⟩
  · have back := (same_split.1 (same_symm s t hs h)).2.2.1
    obtain ⟨r', hr', _⟩ := sameTable_iff.1 back _ (Table.mem_of_get? hr)
    obtain ⟨r'', hr'', hsame⟩ := sameTable_iff.1 (same_split.1 h).2.2.1 _ (Table.mem_of_get? hr')
    obtain rfl := Option.some.inj (hr.symm.trans hr'')
    exact ⟨r', hr', .inr hsame⟩

theorem Alike.kind (h : s.Alike t) : s.kind = t.kind := by
  rcases h with rfl | h
  · rfl
  · cases s
    simp only [same, Bool.and_eq_true, beq_iff_eq] at h
    exact h.1.1.1.1.1.1.1.1.1.1.1

theorem Agrees.same (h : s.Agrees t) (hs : s.keyed = true) (self : s.same s = true) :
    s.same t = true := by
  obtain ⟨selfRest, _, selfTable, _⟩ := same_split.1 self
  have distinct := (keyed_split.1 hs).2.1
  refine same_split.2 ⟨?_, ?_, ?_, h.required⟩
  · rcases h.rest with rest | rest
    · exact rest ▸ selfRest
    · exact rest
  · have count := congrArg List.length h.names
    rwa [Table.keys, Table.keys, List.length_map, List.length_map] at count
  · rw [sameTable_iff] at selfTable ⊢
    intro e he
    obtain ⟨r', hr', alike⟩ := h.property e.1 e.2 (distinct.get?_of_mem he)
    refine ⟨r', hr', ?_⟩
    rcases alike with rfl | alike
    · obtain ⟨r, hr, hsame⟩ := selfTable e he
      rw [distinct.get?_of_mem he] at hr
      exact Option.some.inj hr ▸ hsame
    · exact alike

end Schema

namespace Document

variable {name : String} {s m : Schema} {ms : List Schema}

/-! ### One addition -/

/-- A definition is left alone by a model that is like it, and united with another one. -/
theorem combine_objects (name : String) (hs : s.kind = .object) (hm : m.kind = .object) :
    (s.Alike m ∧ (combine name (some s) m).1 = s) ∨ (combine name (some s) m).1 = unite s m := by
  unfold combine
  simp only
  split
  · rename_i alike
    exact .inl ⟨Schema.alike_iff.1 alike, rfl⟩
  · rw [if_pos ⟨hs, hm⟩]
    exact .inr rfl

theorem combine_of_alike (h : s.Alike m) : (combine name (some s) m).1 = s := by
  unfold combine
  simp only
  rw [if_pos (Schema.alike_iff.2 h)]

theorem keyed_unite (hs : s.keyed = true) (hm : m.keyed = true) :
    (unite s m).keyed = true := by
  obtain ⟨_, sdistinct, sproperties⟩ := Schema.keyed_split.1 hs
  obtain ⟨mrest, _, mproperties⟩ := Schema.keyed_split.1 hm
  exact Schema.keyed_split.2 ⟨mrest, Table.Distinct.merge sdistinct _,
    Table.forall_merge (P := fun u : Schema => u.keyed = true) sproperties mproperties⟩

/-- What a definition is while models are added to it. -/
structure Unites (ms : List Schema) (s : Schema) : Prop extends s.UnionOf ms where
  kind : s.kind = .object
  keyed : s.keyed = true
  /-- Required names are listed once as soon as anything has been united. -/
  settled : s.required.Nodup ∨ ∀ m ∈ ms, s.Alike m

theorem Unites.first (hm : m.kind = .object) (hk : m.keyed = true) : Unites [m] m where
  names := by
    rw [List.flatMap_singleton, ← distinctNames_eq,
      distinctNames_of_nodup (Schema.keyed_split.1 hk).2.1]
  property n r hr := by
    refine ⟨r, ?_, .refl r⟩
    simpa [Schema.lastProperty] using hr
  required n := by simp
  rest m' hm' := by
    obtain rfl := Option.some.inj hm'
    exact .refl _
  kind := hm
  keyed := hk
  settled := .inr fun m' hm' => by
    rw [List.mem_singleton.1 hm']
    exact .refl m

theorem lastProperty_concat (ms : List Schema) (m : Schema) (n : String) :
    Schema.lastProperty (ms ++ [m]) n =
      (Table.get? m.properties n).or (Schema.lastProperty ms n) := by
  unfold Schema.lastProperty
  rw [List.reverse_append, List.reverse_singleton, List.singleton_append, List.findSome?_cons]
  cases Table.get? m.properties n <;> rfl

/-- Adding one more model. -/
theorem Unites.add (name : String) (h : Unites ms s) (hm : m.kind = .object) (hk : m.keyed = true) :
    Unites (ms ++ [m]) (combine name (some s) m).1 := by
  have distinct : Table.Distinct s.properties := (Schema.keyed_split.1 h.keyed).2.1
  have listed : ((ms ++ [m]).flatMap fun m => Table.keys m.properties).eraseDups =
      (Table.keys m.properties).foldl Table.addKey (Table.keys s.properties) := by
    rw [h.names, List.flatMap_append, List.flatMap_singleton, ← Table.foldl_addKey_nil,
      List.foldl_append, Table.foldl_addKey_nil]
  rcases combine_objects name h.kind hm with ⟨alike, unchanged⟩ | united
  · rw [unchanged]
    refine ⟨⟨?_, fun n r hr => ?_, fun n => ?_, fun m' hm' => ?_⟩, h.kind, h.keyed, ?_⟩
    · rw [listed, Table.foldl_addKey_of_subset]
      intro n hn
      obtain ⟨r, hr⟩ := Option.isSome_iff_exists.1 (Table.has_iff_mem_keys.2 hn)
      obtain ⟨r', hr', _⟩ := alike.property h.keyed hr
      exact Table.has_iff_mem_keys.1 (Option.isSome_iff_exists.2 ⟨r', hr'⟩)
    · rw [lastProperty_concat] at hr
      rcases Option.or_eq_some_iff.1 hr with hr | ⟨_, hr⟩
      · exact alike.property h.keyed hr
      · exact h.property n r hr
    · simp only [List.mem_append, List.mem_singleton, or_and_right, exists_or, exists_eq_left,
        ← h.required, ← alike.required, or_self]
    · rw [List.getLast?_concat] at hm'
      exact Option.some.inj hm' ▸ alike.rest
    · exact h.settled.imp_right fun all => List.forall_mem_append.2
        ⟨all, fun m' hm' => List.mem_singleton.1 hm' ▸ alike⟩
  · rw [united]
    refine ⟨⟨?_, fun n r hr => ?_, fun n => ?_, fun m' hm' => ?_⟩, hm, keyed_unite h.keyed hk,
      .inl (nodup_distinctNames _)⟩
    · rw [listed]
      exact Table.keys_merge _ _
    · rw [lastProperty_concat] at hr
      show ∃ r', (Table.merge s.properties m.properties).get? n = some r' ∧ _
      rw [Table.get?_merge, (Schema.keyed_split.1 hk).2.1.lastAt]
      rcases Option.or_eq_some_iff.1 hr with hr | ⟨none, hr⟩
      · rw [hr]
        exact ⟨r, rfl, .refl r⟩
      · rw [none]
        exact h.property n r hr
    · show n ∈ distinctNames (s.required ++ m.required) ↔ _
      rw [mem_distinctNames, List.mem_append, h.required]
      simp only [List.mem_append, List.mem_singleton, or_and_right, exists_or, exists_eq_left]
    · rw [List.getLast?_concat] at hm'
      exact Option.some.inj hm' ▸ .refl _

/-! ### Many additions -/

/-- The models that are added under a name, in order. -/
def modelsUnder (name : String) (additions : List (String × Schema)) : List Schema :=
  (additions.filter fun e => e.1 = name).map Prod.snd

/-- What a definition becomes when models are added one after the other. -/
def combineAll (name : String) (start : Option Schema) (ms : List Schema) : Option Schema :=
  ms.foldl (fun old m => some (combine name old m).1) start

theorem get?_addModels (d : Document) (additions : List (String × Schema)) (name : String) :
    (d.addModels additions).1.definitions.get? name =
      combineAll name (d.definitions.get? name) (modelsUnder name additions) := by
  induction additions generalizing d with
  | nil => rfl
  | cons e additions ih =>
    rw [addModels_cons, ih, addModel_document, Table.get?_insert, modelsUnder, modelsUnder,
      List.filter_cons]
    by_cases he : e.1 = name
    · subst he
      simp [combineAll]
    · simp [he]

theorem unites_combineAll (name : String) (hne : ms ≠ []) (objects : ∀ m ∈ ms, m.kind = .object)
    (keyed : ∀ m ∈ ms, m.keyed = true) :
    ∃ s, combineAll name none ms = some s ∧ Unites ms s := by
  induction ms using List.reverseRecOn with
  | nil => exact absurd rfl hne
  | append_singleton ms m ih =>
    obtain ⟨objects, hm⟩ := List.forall_mem_append.1 objects
    obtain ⟨keyed, hk⟩ := List.forall_mem_append.1 keyed
    have hm := hm m (List.mem_singleton_self m)
    have hk := hk m (List.mem_singleton_self m)
    by_cases hms : ms = []
    · subst hms
      exact ⟨m, rfl, .first hm hk⟩
    · obtain ⟨s, hs, unites⟩ := ih hms objects keyed
      refine ⟨_, ?_, unites.add name hm hk⟩
      rw [combineAll, List.foldl_concat, ← combineAll, hs]

/-- Models that a definition unites already leave its required names as they are. -/
theorem Unites.required_again (h : Unites ms s) {more : List Schema} (hmore : more ⊆ ms)
    (objects : ∀ m ∈ ms, m.kind = .object) {t : Schema}
    (ht : combineAll name (some s) more = some t) : t.required = s.required := by
  rcases h.settled with nodup | alike
  · -- Whatever is united with the definition requires nothing that is not required yet.
    have kept (more : List Schema) : more ⊆ ms → ∀ u : Schema, u.kind = .object →
        u.required = s.required → combineAll name (some u) more = some t →
          t.required = s.required := by
      induction more with
      | nil =>
        rintro _ u _ hu ⟨⟩
        exact hu
      | cons m more ih =>
        intro hmore u object hu ht
        obtain ⟨hm, hmore⟩ := List.cons_subset.1 hmore
        have ht : combineAll name (some (combine name (some u) m).1) more = some t := ht
        rcases combine_objects name object (objects m hm) with ⟨_, same⟩ | united
        · rw [same] at ht
          exact ih hmore u object hu ht
        · rw [united] at ht
          refine ih hmore (unite u m) (objects m hm) ?_ ht
          show distinctNames (u.required ++ m.required) = s.required
          rw [hu, distinctNames_append, distinctNames_of_nodup nodup,
            Table.foldl_addKey_of_subset fun n hn => (h.required n).2 ⟨m, hm, hn⟩]
    exact kept more hmore s h.kind rfl ht
  · -- Nothing has been united with the definition, and nothing is.
    have kept (more : List Schema) : more ⊆ ms → combineAll name (some s) more = some s := by
      induction more with
      | nil => exact fun _ => rfl
      | cons m more ih =>
        intro hmore
        obtain ⟨hm, hmore⟩ := List.cons_subset.1 hmore
        show combineAll name (some (combine name (some s) m).1) more = some s
        rw [combine_of_alike (alike m hm)]
        exact ih hmore
    rw [kept more hmore] at ht
    rw [Option.some.inj ht]

theorem lastProperty_twice (ms : List Schema) (n : String) :
    Schema.lastProperty (ms ++ ms) n = Schema.lastProperty ms n := by
  unfold Schema.lastProperty
  rw [List.reverse_append, List.findSome?_append, Option.or_self]

theorem Unites.exists_lastProperty (h : Unites ms s) {n : String} {r : Schema}
    (hr : Table.get? s.properties n = some r) :
    ∃ r', Schema.lastProperty ms n = some r' ∧ r.Alike r' := by
  have listed : n ∈ (ms.flatMap fun m => Table.keys m.properties).eraseDups := by
    rw [← h.names, ← Table.has_iff_mem_keys, Table.has, hr]
    rfl
  obtain ⟨m, hm, hn⟩ := List.mem_flatMap.1 (List.mem_eraseDups.1 listed)
  have found : (Schema.lastProperty ms n).isSome = true :=
    List.findSome?_isSome_iff.2 ⟨m, List.mem_reverse.2 hm, Table.has_iff_mem_keys.2 hn⟩
  obtain ⟨r', hr'⟩ := Option.isSome_iff_exists.1 found
  obtain ⟨r'', hr'', alike⟩ := h.property n r' hr'
  obtain rfl := Option.some.inj (hr.symm.trans hr'')
  exact ⟨r', hr', alike⟩

/-- A definition that unites models and one that unites them twice agree, when they list the same
required names. -/
theorem Unites.agrees (h : Unites ms s) {t : Schema} (ht : Unites (ms ++ ms) t)
    (hne : ms ≠ []) (required : t.required = s.required) : s.Agrees t where
  names := by
    rw [h.names, ht.names, List.flatMap_append, eraseDups_append_self]
  property n r hr := by
    obtain ⟨r', hr', alike⟩ := h.exists_lastProperty hr
    obtain ⟨u, hu, again⟩ := ht.property n r' ((lastProperty_twice ms n).trans hr')
    have keyed := (Schema.keyed_split.1 ht.keyed).2.2 _ (Table.mem_of_get? hu)
    exact ⟨u, hu, alike.trans (again.symm keyed)⟩
  required := required.symm
  rest := by
    have hm := List.getLast?_eq_some_getLast hne
    have hm' : (ms ++ ms).getLast? = some (ms.getLast hne) := by
      rw [List.getLast?_append, hm]
      rfl
    exact (h.rest _ hm).trans ((ht.rest _ hm').symm (Schema.keyed_split.1 ht.keyed).1)

/-- Object schemas that are added under a name without a definition, among any additions under
other names, leave their union as the definition. Adding them all once more, in the same order and
again among any others, leaves a definition that agrees with it. -/
theorem addModels_union (d : Document) (name : String) (absent : d.definitions.get? name = none)
    (additions again : List (String × Schema)) (hne : modelsUnder name additions ≠ [])
    (objects : ∀ m ∈ modelsUnder name additions, m.kind = .object)
    (keyed : ∀ m ∈ modelsUnder name additions, m.keyed = true)
    (hagain : modelsUnder name again = modelsUnder name additions) :
    ∃ s t, (d.addModels additions).1.definitions.get? name = some s ∧
      s.UnionOf (modelsUnder name additions) ∧
      ((d.addModels additions).1.addModels again).1.definitions.get? name = some t ∧
      s.Agrees t ∧ (s.same s = true → s.same t = true) := by
  obtain ⟨s, hs, unites⟩ := unites_combineAll name hne objects keyed
  obtain ⟨t, ht, twice⟩ := unites_combineAll name
    (List.append_ne_nil_of_left_ne_nil hne (modelsUnder name additions))
    (List.forall_mem_append.2 ⟨objects, objects⟩) (List.forall_mem_append.2 ⟨keyed, keyed⟩)
  have first : (d.addModels additions).1.definitions.get? name = some s := by
    rw [get?_addModels, absent, hs]
  have ht : combineAll name (some s) (modelsUnder name additions) = some t := by
    rw [combineAll, List.foldl_append, ← combineAll, ← combineAll, hs] at ht
    exact ht
  have agrees := unites.agrees twice hne
    (unites.required_again (List.Subset.refl _) objects ht)
  refine ⟨s, t, first, unites.toUnionOf, ?_, agrees, agrees.same unites.keyed⟩
  rw [get?_addModels, first, hagain, ht]

/-- A point that is added three times, with a label in between: the second time it is the same, its
properties the other way round and its default written as a float, the third time it is not. -/
def points : List (String × Schema) := [
  ("Point", {
    kind := .object
    properties := [("x", { kind := .number, default := .int 1 }), ("y", { kind := .number })]
    required := ["x"] }),
  ("Label", { kind := .string }),
  ("Point", {
    kind := .object
    properties := [("y", { kind := .number }),
      ("x", { kind := .number, default := .scalar (.float (.finite false 1 0)) })]
    required := ["x"] }),
  ("Point", {
    kind := .object
    properties := [("z", { kind := .integer }), ("y", { kind := .integer })]
    required := ["z"]
    description := "in space" })]

theorem addModels_union_points :
    ∃ s t, (addModels {} points).1.definitions.get? "Point" = some s ∧
      s.UnionOf (modelsUnder "Point" points) ∧ Table.keys s.properties = ["x", "y", "z"] ∧
      ((addModels {} points).1.addModels points).1.definitions.get? "Point" = some t ∧
      s.Agrees t := by
  obtain ⟨s, t, hs, union, ht, agrees, _⟩ := addModels_union {} "Point" rfl points points
    (by decide) (by decide) (by decide +kernel) rfl
  exact ⟨s, t, hs, union, union.names.trans (by decide +kernel), ht, agrees⟩

end Document

end ApiCompiler
