import ApiCompiler.Proofs.Instances
import ApiCompiler.Proofs.Linearization

/-!
# Elements of tokens

A token is a class that derives from the token class, applied to the element that it stands for. On
the way up to it, each class says what the type variables of its bases are bound to, so that the
element of a token ought to be the one at the end of the way, with all variables bound:
`World.StandsFor`. The search for the element looks for a base that is the token class with an
element, in the nearest class that keeps its bases as they are written, or from the first token
above in the same way. It gives the element as it is written there, whatever its variables are bound
to below, and it may give none if the first bases on the way up come to the token class without an
element.
-/

set_option autoImplicit false

namespace ApiCompiler

namespace TypeExpr

/-- The token class applied to an element. -/
def tokenOf (e : TypeExpr) : TypeExpr := .applied (.builtin .typeToken) [e]

/-- What the token class is applied to. -/
def tokenArgument? : TypeExpr → Option TypeExpr
  | .applied (.builtin .typeToken) (e :: _) => some e
  | _ => none

/-- A class that is filled in, as the application of the class. -/
def asApplied : TypeExpr → TypeExpr
  | .filled i args => .applied (.declared i) args
  | t => t

end TypeExpr

namespace World

open TypeExpr

/-- The class that a type is or is an application of, without what it is filled in with. -/
def rootClass? (t : TypeExpr) : Option TypeExpr := fieldClass? t.asApplied

/-- The token class without an element. -/
def Bare (t : TypeExpr) : Prop :=
  rootClass? t = some (.builtin .typeToken) ∧ t.tokenArgument? = none

section Definitions

variable (w : World)

/-- A base of the class of a type, as it is written. -/
def WrittenWith (t b : TypeExpr) : Prop :=
  ∃ i c, rootClass? t = some (.declared i) ∧ w.class? i = some c ∧ b ∈ parents c ∧
    (baseClass? b).isSome

/-- From a type to a base of its class, with the variables of the class bound as in the type. -/
def Derives (t u : TypeExpr) : Prop :=
  ∃ b, w.WrittenWith t b ∧ u = b.instantiate (w.bindings t.asApplied)

/-- A way up from a type ends at the token class. -/
def ComesTo (t v : TypeExpr) : Prop :=
  Relation.ReflTransGen w.Derives t v ∧ rootClass? v = some (.builtin .typeToken)

/-- A type derives from the token class applied to an element, and from no other application of
it. -/
structure StandsFor (t e : TypeExpr) : Prop where
  comes : w.ComesTo t (tokenOf e)
  only : ∀ v, w.ComesTo t v → Bare v ∨ v = tokenOf e

/-- A base is the token class or below it. -/
def leadsToToken (b : TypeExpr) : Bool := (baseClass? b).any (w.isBelow · .typeToken)

/-- From a type to the first base of its class that leads to the token class. -/
def Prefers (t u : TypeExpr) : Prop :=
  ∃ i c b, rootClass? t = some (.declared i) ∧ w.class? i = some c ∧
    (parents c).find? w.leadsToToken = some b ∧ u = b.instantiate (w.bindings t.asApplied)

end Definitions

variable {w : World} {t u b cls e : TypeExpr} {c : ClassDecl} {i : Nat}
  {bound : Nat → Option TypeExpr}

/-! ### Classes of bases -/

theorem rootClass?_of_base (h : baseClass? b = some cls) : rootClass? b = rootClass? cls := by
  cases b with
  | builtin | declared | filled => rw [← Option.some.inj h]
  | applied head args =>
    obtain rfl := Option.some.inj h
    cases head <;> rfl
  | generic g =>
    obtain rfl := Option.some.inj h
    rfl
  | _ => cases h

/-- Binding variables does not change the class. -/
theorem rootClass?_instantiate (bound : Nat → Option TypeExpr) (h : (baseClass? b).isSome) :
    rootClass? (b.instantiate bound) = rootClass? b := by
  unfold instantiate
  split
  · cases b with
    | builtin | declared | generic | applied => rfl
    | filled j args =>
      rw [replaceAll]
      split <;> rfl
    | _ => cases h
  · rfl

theorem rootClass?_of_bound_base (bound : Nat → Option TypeExpr) (h : baseClass? b = some cls) :
    rootClass? (b.instantiate bound) = rootClass? cls :=
  (rootClass?_instantiate bound (Option.isSome_of_eq_some h)).trans (rootClass?_of_base h)

theorem eq_applied_of_tokenArgument (h : b.tokenArgument? = some e) :
    ∃ more, b = .applied (.builtin .typeToken) (e :: more) := by
  unfold tokenArgument? at h
  split at h
  · obtain rfl := Option.some.inj h
    exact ⟨_, rfl⟩
  · cases h

theorem rootClass?_of_tokenArgument (h : b.tokenArgument? = some e) :
    rootClass? b = some (.builtin .typeToken) := by
  obtain ⟨more, rfl⟩ := eq_applied_of_tokenArgument h
  rfl

/-- Binding variables does not add or take away an element. -/
theorem tokenArgument?_instantiate (bound : Nat → Option TypeExpr) (h : (baseClass? b).isSome) :
    (b.instantiate bound).tokenArgument?.isSome = b.tokenArgument?.isSome := by
  unfold instantiate
  split
  · cases b with
    | builtin | declared | generic => rfl
    | applied head args =>
      rw [replaceAll, makeApplied]
      cases head with
      | builtin d =>
        cases args with
        | nil => cases d <;> rfl
        | cons a args => cases d <;> rfl
      | generic | declared | container => rfl
    | filled j args =>
      rw [replaceAll]
      split <;> rfl
    | _ => cases h
  · rfl

/-- What a class is filled in with does not matter to what is above it. -/
theorem isBelow_rootClass (ht : t.isClass = true) (h : rootClass? t = some cls) {d : Builtin} :
    w.isBelow cls d = w.isBelow t d := by
  cases t with
  | builtin | declared | filled =>
    rw [← Option.some.inj h]
    rfl
  | _ => cases ht

theorem isBelow_typeToken : w.isBelow t .typeToken = true ↔
    .builtin .typeToken ∈ w.lineage t := by
  unfold isBelow
  rw [List.any_eq_true]
  constructor
  · rintro ⟨u, hu, h⟩
    split at h
    · obtain rfl := eq_of_beq h
      exact hu
    · cases h
  · exact fun h => ⟨_, h, rfl⟩

theorem isToken_iff (h : ∀ d, cls ≠ .builtin d) (hcls : cls.isClass = true) :
    w.isToken cls = true ↔ w.isBelow cls .typeToken = true := by
  cases cls with
  | builtin d => exact absurd rfl (h d)
  | declared i => simp [isToken, TypeExpr.isClass, same]
  | filled i args => simp [isToken, TypeExpr.isClass, same]
  | _ => cases hcls

theorem isClass_of_token (h : w.isToken cls = true) : cls.isClass = true :=
  (Bool.and_eq_true_iff.1 (Bool.and_eq_true_iff.1 h).1).1

theorem isToken_of_elementAbove {n : Nat} (h : w.elementAbove n t = some e) :
    w.isToken t = true := by
  cases n with
  | zero => cases h
  | succ n =>
    unfold elementAbove at h
    split at h
    · assumption
    · cases h

/-- Tokens are declared classes. -/
theorem exists_rank_of_token (h : w.isToken cls = true) : ∃ k, rank? cls = some k := by
  cases cls with
  | declared i => exact ⟨_, rfl⟩
  | filled i args => exact ⟨_, rfl⟩
  | builtin d =>
    rw [Layered.not_isToken_builtin] at h
    cases h
  | _ => cases h

theorem isToken_filled {args : List TypeExpr} :
    w.isToken (.filled i args) = w.isToken (.declared i) := by
  simp [isToken, isBelow, lineage, TypeExpr.isClass, same]

theorem exists_class_of_isBelow {d : Builtin} (h : w.isBelow (.declared i) d = true) :
    ∃ c, w.class? i = some c := by
  cases hc : w.class? i with
  | some c => exact ⟨c, rfl⟩
  | none => simp [isBelow, lineage, hc] at h

theorem exists_baseClass_of_leadsToToken (h : w.leadsToToken b = true) :
    ∃ cls, baseClass? b = some cls := by
  unfold leadsToToken at h
  cases hcls : baseClass? b with
  | some cls => exact ⟨cls, rfl⟩
  | none =>
    rw [hcls] at h
    cases h

theorem Prefers.derives (h : w.Prefers t u) : w.Derives t u := by
  obtain ⟨i, c, b, ht, hc, hb, rfl⟩ := h
  obtain ⟨cls, hcls⟩ := exists_baseClass_of_leadsToToken (List.find?_some hb)
  exact ⟨b, ⟨i, c, ht, hc, List.mem_of_find?_eq_some hb, Option.isSome_of_eq_some hcls⟩, rfl⟩

theorem shared_known (d : Builtin) : Shared fun t => match t with
    | .builtin c => c == d
    | _ => false := by
  refine shared_of_class (fun i xs ys => rfl) fun t ht => ?_
  cases t with
  | builtin => cases ht
  | _ => rfl

theorem shared_isToken : Shared w.isToken := by
  refine shared_of_class (fun i xs ys => ?_) fun t ht => ?_
  · simp [isToken, isBelow, lineage, TypeExpr.isClass, same]
  · simp [isToken, ht]

/-! ### Ways up -/

/-- A type with a class that is not declared is on no further way up. -/
theorem eq_of_comesTo {d : Builtin} (ht : rootClass? t = some (.builtin d)) (h : w.ComesTo t u) :
    u = t := by
  rcases h.1.cases_head with rfl | ⟨v, step, _⟩
  · rfl
  · obtain ⟨b, ⟨i, c, hi, _⟩, _⟩ := step
    cases ht.symm.trans hi

/-- The way up from a declared class leads over one of its bases. -/
theorem exists_of_comesTo (ht : rootClass? t = some (.declared i)) (hc : w.class? i = some c)
    (h : w.ComesTo t u) :
    ∃ b ∈ parents c, w.ComesTo (b.instantiate (w.bindings t.asApplied)) u := by
  rcases h.1.cases_head with rfl | ⟨v, step, way⟩
  · cases ht.symm.trans h.2
  · obtain ⟨b, ⟨j, c', hj, hc', hb, _⟩, rfl⟩ := step
    cases ht.symm.trans hj
    cases hc.symm.trans hc'
    exact ⟨b, hb, way, h.2⟩

theorem standsFor_tokenOf : w.StandsFor (tokenOf e) e :=
  ⟨⟨.refl, rfl⟩, fun _ h => .inr (eq_of_comesTo rfl h)⟩

/-- A class stands for the element of one of its bases, if no other base has another one. -/
theorem StandsFor.of_base (ht : rootClass? t = some (.declared i)) (hc : w.class? i = some c)
    (hb : b ∈ parents c) (hcls : (baseClass? b).isSome)
    (h : w.StandsFor (b.instantiate (w.bindings t.asApplied)) e)
    (others : ∀ b' ∈ parents c, b' = b ∨
      ∀ v, w.ComesTo (b'.instantiate (w.bindings t.asApplied)) v → Bare v) : w.StandsFor t e where
  comes := ⟨.head ⟨b, ⟨i, c, ht, hc, hb, hcls⟩, rfl⟩ h.comes.1, rfl⟩
  only v hv := by
    obtain ⟨b', hb', hv⟩ := exists_of_comesTo ht hc hv
    rcases others b' hb' with rfl | bare
    · exact h.only v hv
    · exact .inl (bare v hv)

/-! ### What the search finds -/

/-- A class that keeps its bases as they are written stands below them. -/
theorem keptBases_parents {ts : List TypeExpr} (h : keptBases c = some ts) (hb : b ∈ ts) :
    ts = parents c := by
  unfold keptBases at h
  unfold parents
  cases hk : c.kind with
  | plain | dataclass | model =>
    rw [hk] at h
    exact (Option.some.inj (Option.ite_none_left_eq_some.1 h).2).symm
  | typedDict | namedTuple =>
    rw [hk] at h
    obtain rfl := Option.some.inj h
    cases hb
  | enumeration =>
    rw [hk] at h
    cases h

theorem exists_of_elementIn {bases : List TypeExpr} (h : elementIn bases = some e) :
    ∃ b ∈ bases, b.tokenArgument? = some e :=
  List.exists_of_findSome?_eq_some h

/-- An element in bases that are kept is written in a class of the line. -/
theorem exists_of_writtenBases (h : elementIn (w.writtenBases t) = some e) :
    ∃ k c b, .declared k ∈ w.lineage t ∧ w.class? k = some c ∧ b ∈ parents c ∧
      b.tokenArgument? = some e := by
  obtain ⟨b, hb, he⟩ := exists_of_elementIn h
  unfold writtenBases at hb
  cases hfind : (w.lineage t).findSome? _ with
  | none =>
    rw [hfind] at hb
    cases hb
  | some bases =>
    rw [hfind] at hb
    obtain ⟨u, hu, kept⟩ := List.exists_of_findSome?_eq_some hfind
    have none_kept (h : some [] = some bases) : False := by
      cases h
      cases hb
    split at kept
    · rename_i k
      obtain ⟨c, hc, kept⟩ := Option.bind_eq_some_iff.1 kept
      exact ⟨k, c, b, hu, hc, keptBases_parents kept hb ▸ hb, he⟩
    · exact (none_kept kept).elim
    · exact (none_kept kept).elim
    · exact (none_kept kept).elim
    · exact (none_kept kept).elim
    · cases kept

/-- A class that is written with an element has it found at once. -/
theorem exists_elementIn (hc : w.class? i = some c) (hb : b ∈ parents c)
    (he : b.tokenArgument? = some e) :
    ∃ e', elementIn (w.writtenBases (.declared i)) = some e' := by
  obtain ⟨more, rfl⟩ := eq_applied_of_tokenArgument he
  have noClass (ts : List TypeExpr) (h : .applied (.builtin .typeToken) (e :: more) ∈ ts) :
      (ts.all TypeExpr.isClass && c.typeVars.isEmpty) = false := by
    rw [Bool.and_eq_false_iff]
    exact .inl (List.all_eq_false.2 ⟨_, h, Bool.false_ne_true⟩)
  have kept : keptBases c = some (parents c) := by
    unfold keptBases
    unfold parents at hb ⊢
    cases hk : c.kind with
    | plain | dataclass | model =>
      rw [hk] at hb
      exact if_neg (Bool.eq_false_iff.1 (noClass _ hb))
    | typedDict | namedTuple | enumeration =>
      rw [hk] at hb
      obtain ⟨d, _, hd⟩ := List.mem_map.1 hb
      cases hd
  have written : w.writtenBases (.declared i) = parents c := by
    unfold writtenBases
    rw [lineage_cons hc, List.findSome?_cons]
    dsimp only
    rw [hc, Option.bind_some, kept]
    rfl
  rw [written]
  exact Option.isSome_iff_exists.1 (List.findSome?_isSome_iff.2 ⟨_, hb, rfl⟩)

/-- The token class as a base has no element where none is found in the bases that are kept. -/
theorem bare_of_unwritten (hc : w.class? i = some c) (hb : b ∈ parents c)
    (hcls : baseClass? b = some (.builtin .typeToken))
    (hnone : elementIn (w.writtenBases (.declared i)) = none) (bound : Nat → Option TypeExpr) :
    Bare (b.instantiate bound) := by
  refine ⟨rootClass?_of_bound_base bound hcls, ?_⟩
  rw [← Option.not_isSome_iff_eq_none,
    tokenArgument?_instantiate bound (Option.isSome_of_eq_some hcls), Option.isSome_iff_exists]
  rintro ⟨e, he⟩
  obtain ⟨e', found⟩ := exists_elementIn hc hb he
  rw [hnone] at found
  cases found

namespace Linearized

theorem declared_mem_trans (hw : w.Linearized) {k : Nat} (hu : u ∈ w.lineage t)
    (hk : .declared k ∈ w.lineage u) : .declared k ∈ w.lineage t := by
  obtain ⟨v, hv, hrank⟩ := hw.exists_mem_lineage (shared_rank (2 * k)) nofun hu
    ⟨_, hk, beq_iff_eq.2 rfl⟩
  cases v with
  | declared j =>
    have hjk := Option.some.inj (beq_iff_eq.1 hrank)
    obtain rfl : j = k := by omega
    exact hv
  | filled j args =>
    have hjk := Option.some.inj (beq_iff_eq.1 hrank)
    omega
  | _ => cases beq_iff_eq.1 hrank

/-- What the search finds is written in a class of the line. -/
theorem exists_of_elementAbove (hw : w.Linearized) {n : Nat}
    (h : w.elementAbove n t = some e) :
    ∃ k c b, .declared k ∈ w.lineage t ∧ w.class? k = some c ∧ b ∈ parents c ∧
      b.tokenArgument? = some e := by
  induction n generalizing t with
  | zero => cases h
  | succ n ih =>
    unfold elementAbove at h
    split at h
    · split at h
      · rename_i e' hwritten
        obtain rfl := Option.some.inj h
        exact exists_of_writtenBases hwritten
      · obtain ⟨u, hu, h⟩ := Option.bind_eq_some_iff.1 h
        obtain ⟨k, c, b, hk, found⟩ := ih h
        have above := List.mem_of_mem_drop (List.mem_of_find?_eq_some hu)
        exact ⟨k, c, b, hw.declared_mem_trans above hk, found⟩
    · cases h

/-- A declared class in the line of a class is reached by a way up. The induction is on the position
of the class. -/
theorem derives_of_mem (hw : w.Linearized) {k : Nat} (ht : rootClass? t = some (.declared i))
    (hk : .declared k ∈ w.lineage (.declared i)) :
    ∃ u, Relation.ReflTransGen w.Derives t u ∧ rootClass? u = some (.declared k) := by
  induction i using Nat.strongRecOn generalizing t with
  | ind i ih =>
    rcases List.mem_cons.1 hk with hk | hk
    · rw [hk]
      exact ⟨t, .refl, ht⟩
    · cases hc : w.class? i with
      | none =>
        rw [hc] at hk
        cases hk
      | some c =>
        rw [hc] at hk
        rcases hw.mem_above hc hk with hk | ⟨b, hb, cls, hcls, below, hk⟩
        · cases hk
        · have step : w.Derives t (b.instantiate (w.bindings t.asApplied)) :=
            ⟨b, ⟨i, c, ht, hc, hb, Option.isSome_of_eq_some hcls⟩, rfl⟩
          have root := rootClass?_of_bound_base (w.bindings t.asApplied) hcls
          have goes {j : Nat} (hj : j < i) (hroot : rootClass? cls = some (.declared j))
              (hk : .declared k ∈ w.lineage (.declared j)) :
              ∃ u, Relation.ReflTransGen w.Derives t u ∧ rootClass? u = some (.declared k) := by
            obtain ⟨u, way, hu⟩ := ih j hj (root.trans hroot) hk
            exact ⟨u, .head step way, hu⟩
          cases cls with
          | builtin d =>
            obtain ⟨_, hk⟩ := mem_lineage_builtin hk
            cases hk
          | declared j => exact goes below rfl hk
          | filled j args =>
            refine goes below.1 rfl ((List.mem_cons.1 hk).resolve_left nofun)
          | _ => cases hk

/-- What a class above stands below, the class itself does. -/
theorem isBelow_trans (hw : w.Linearized) (hu : u ∈ w.lineage t)
    (h : w.isBelow u .typeToken = true) : w.isBelow t .typeToken = true :=
  List.any_eq_true.2 <| hw.exists_mem_lineage (shared_known .typeToken) (fun _ hd => eq_of_beq hd)
    hu (List.any_eq_true.1 h)

/-- A class is below the token class when one of its bases leads there. -/
theorem isBelow_iff_leads (hw : w.Linearized) (hc : w.class? i = some c) :
    w.isBelow (.declared i) .typeToken = true ↔ ∃ b ∈ parents c, w.leadsToToken b = true := by
  constructor
  · intro h
    rw [isBelow_typeToken, lineage_cons hc] at h
    rcases hw.mem_above hc ((List.mem_cons.1 h).resolve_left nofun) with
      h | ⟨b, hb, cls, hcls, _, h⟩
    · cases h
    · refine ⟨b, hb, ?_⟩
      rw [leadsToToken, hcls]
      exact isBelow_typeToken.2 h
  · rintro ⟨b, hb, h⟩
    obtain ⟨cls, hcls⟩ := exists_baseClass_of_leadsToToken h
    rw [leadsToToken, hcls] at h
    obtain ⟨u, hu, hd⟩ := exists_mem_linearize (shared_known .typeToken) hb hcls
      (List.any_eq_true.1 h)
    rw [← hw.above i c hc] at hu
    refine List.any_eq_true.2 ⟨u, ?_, hd⟩
    rw [lineage_cons hc]
    exact List.mem_cons_of_mem _ hu

/-- The first token above a class is the class of the first base that leads to the token class. -/
theorem find?_token (hw : w.Linearized) (hc : w.class? i = some c)
    (hb : (parents c).find? w.leadsToToken = some b) (hcls : baseClass? b = some cls)
    (hno : cls ≠ .builtin .typeToken) : c.above.find? w.isToken = some cls := by
  have unknown {cls : TypeExpr} (h : w.isBelow cls .typeToken = true)
      (hno : cls ≠ .builtin .typeToken) : ∀ d, cls ≠ .builtin d := by
    rintro d rfl
    exact hno (congrArg _ (eq_typeToken_of_mem (isBelow_typeToken.1 h)))
  obtain ⟨hlead, before, behind, hparents, earlier⟩ := List.find?_eq_some_iff_append.1 hb
  have below : w.isBelow cls .typeToken = true := by
    rwa [leadsToToken, hcls] at hlead
  have token := (isToken_iff (unknown below hno) (isClass_of_baseClass hcls)).2 below
  rw [hw.above i c hc]
  refine find?_linearize shared_isToken ?_ fun cls' hcls' u hu htoken => ?_
  · have skipped : (before.filterMap baseClass?).find? w.isToken = none := by
      refine List.find?_eq_none.2 fun cls' hcls' htoken => ?_
      obtain ⟨b', hb', hbase⟩ := List.mem_filterMap.1 hcls'
      have leads : w.leadsToToken b' = true := by
        rw [leadsToToken, hbase]
        exact (Bool.and_eq_true_iff.1 htoken).2
      have free := earlier b' hb'
      rw [leads] at free
      cases free
    rw [hparents, List.filterMap_append, List.find?_append, skipped, Option.none_or,
      List.filterMap_cons_some hcls, List.find?_cons_of_pos token]
  · obtain ⟨b', _, hbase⟩ := List.mem_filterMap.1 hcls'
    have above := hw.isBelow_trans hu (Bool.and_eq_true_iff.1 htoken).2
    refine (isToken_iff (unknown above ?_) (isClass_of_baseClass hbase)).2 above
    rintro rfl
    obtain ⟨d, rfl⟩ := mem_lineage_builtin hu
    rw [Layered.not_isToken_builtin] at htoken
    cases htoken

/-- Where the search comes to nothing, the first bases on the way up come to the token class without
an element. The bound is large enough for the classes of the line. -/
theorem bare_of_elementAbove (hw : w.Linearized) {n : Nat} (hn : (w.ranks cls).card ≤ n)
    (htoken : w.isToken cls = true) (hnone : w.elementAbove n cls = none)
    (ht : rootClass? t = rootClass? cls) :
    ∃ v, Relation.ReflTransGen w.Prefers t v ∧ Bare v := by
  have below := (Bool.and_eq_true_iff.1 htoken).2
  induction n generalizing cls t with
  | zero =>
    obtain ⟨k, hk⟩ := exists_rank_of_token htoken
    have mem : k ∈ w.ranks cls := mem_ranks.2 ⟨cls, mem_lineage_self (isClass_of_token htoken), hk⟩
    exact absurd (Finset.card_pos.2 ⟨k, mem⟩) (by omega)
  | succ n ih =>
    unfold elementAbove at hnone
    rw [if_pos htoken] at hnone
    split at hnone
    · cases hnone
    rename_i unwritten
    -- the search goes on with the first token above, which is the class of the first base
    have next {u v : TypeExpr} (hu : ((w.lineage cls).drop 1).find? w.isToken = some u)
        (hv : rootClass? v = rootClass? u) :
        ∃ v', Relation.ReflTransGen w.Prefers v v' ∧ Bare v' := by
      obtain ⟨k, hk⟩ := exists_rank_of_token htoken
      have fewer := hw.card_ranks_lt hk (List.mem_of_find?_eq_some hu)
      have token := List.find?_some hu
      rw [hu] at hnone
      exact ih (by omega) token hnone hv (Bool.and_eq_true_iff.1 token).2
    cases cls with
    | filled i args =>
      exact next (List.find?_cons_of_pos (isToken_filled.symm.trans htoken)) ht
    | declared i =>
      obtain ⟨c, hc⟩ := exists_class_of_isBelow below
      obtain ⟨b, hb⟩ := Option.isSome_iff_exists.1
        (List.find?_isSome.2 ((hw.isBelow_iff_leads hc).1 below))
      obtain ⟨cls, hcls⟩ := exists_baseClass_of_leadsToToken (List.find?_some hb)
      have step : w.Prefers t (b.instantiate (w.bindings t.asApplied)) := ⟨i, c, b, ht, hc, hb, rfl⟩
      by_cases hno : cls = .builtin .typeToken
      · rw [hno] at hcls
        have written := List.mem_of_find?_eq_some hb
        exact ⟨_, .single step, bare_of_unwritten hc written hcls unwritten _⟩
      · have first := hw.find?_token hc hb hcls hno
        have line : (w.lineage (.declared i)).drop 1 = c.above := by rw [lineage_cons hc]; rfl
        obtain ⟨v, way, bare⟩ := next (line ▸ first) (rootClass?_of_bound_base _ hcls)
        exact ⟨v, .head step way, bare⟩
    | builtin d =>
      rw [Layered.not_isToken_builtin] at htoken
      cases htoken
    | _ => cases htoken

end Linearized

/-! ### Elements as they are written -/

/-- A base that is the token class with an element is one way up from the class that it is written
with. -/
theorem comesTo_of_written (way : Relation.ReflTransGen w.Derives t u) (hb : w.WrittenWith u b)
    (he : b.tokenArgument? = some e) : w.ComesTo t (b.instantiate (w.bindings u.asApplied)) ∧
      ¬ Bare (b.instantiate (w.bindings u.asApplied)) := by
  obtain ⟨_, _, _, _, _, isSome⟩ := id hb
  refine ⟨⟨way.tail ⟨b, hb, rfl⟩, (rootClass?_instantiate _ isSome).trans
    (rootClass?_of_tokenArgument he)⟩, fun bare => ?_⟩
  have given := tokenArgument?_instantiate (w.bindings u.asApplied) isSome
  rw [bare.2, he] at given
  cases given

/-- An application of the token class to one element was one before its variables were bound. -/
theorem eq_tokenOf {e' : TypeExpr} (h : b.instantiate bound = tokenOf e)
    (he : b.tokenArgument? = some e') : b = tokenOf e' := by
  obtain ⟨more, rfl⟩ := eq_applied_of_tokenArgument he
  cases more with
  | nil => rfl
  | cons a more =>
    unfold instantiate at h
    split at h
    · cases h
    · cases h

theorem varsWithin_tokenOf : (tokenOf e).varsWithin = e.varsWithin := List.append_nil _

/-- Where nothing is bound, nothing changes. -/
theorem instantiate_of_unbound (h : ∀ i ∈ b.varsWithin, bound i = none) :
    b.instantiate bound = b := by
  refine if_neg fun some_bound => ?_
  obtain ⟨i, hi, hsome⟩ := List.any_eq_true.1 some_bound
  rw [h i hi] at hsome
  cases hsome

namespace Linearized

theorem exists_written (hw : w.Linearized) (h : w.tokenElement t = some e) :
    t.isClass = true ∧ ∃ u b, Relation.ReflTransGen w.Derives t u ∧ w.WrittenWith u b ∧
      b.tokenArgument? = some e := by
  have hclass := isClass_of_token (isToken_of_elementAbove h)
  obtain ⟨k, c, b, hk, hc, hb, he⟩ := hw.exists_of_elementAbove h
  have reached : ∃ u, Relation.ReflTransGen w.Derives t u ∧
      rootClass? u = some (.declared k) := by
    cases t with
    | builtin d =>
      obtain ⟨_, hk⟩ := mem_lineage_builtin hk
      cases hk
    | declared i => exact hw.derives_of_mem rfl hk
    | filled i args => exact hw.derives_of_mem rfl ((List.mem_cons.1 hk).resolve_left nofun)
    | _ => cases hclass
  obtain ⟨u, way, hu⟩ := reached
  refine ⟨hclass, u, b, way, ⟨k, c, hu, hc, hb, ?_⟩, he⟩
  obtain ⟨more, rfl⟩ := eq_applied_of_tokenArgument he
  rfl

/-- A class on a way up to the token class is below it. -/
theorem isBelow_of_comesTo (hw : w.Linearized) (h : w.ComesTo t u) :
    ∃ cls, rootClass? t = some cls ∧ w.isBelow cls .typeToken = true := by
  obtain ⟨way, hroot⟩ := h
  induction way using Relation.ReflTransGen.head_induction_on with
  | refl => exact ⟨_, hroot, rfl⟩
  | head step _ ih =>
    obtain ⟨b, ⟨i, c, ht, hc, hb, isSome⟩, rfl⟩ := step
    refine ⟨_, ht, (hw.isBelow_iff_leads hc).2 ⟨b, hb, ?_⟩⟩
    obtain ⟨cls, hcls⟩ := Option.isSome_iff_exists.1 isSome
    obtain ⟨root, hroot, below⟩ := ih
    rw [rootClass?_of_bound_base _ hcls] at hroot
    rw [leadsToToken, hcls]
    exact (isBelow_rootClass (isClass_of_baseClass hcls) hroot).symm.trans below

/-- The search finds something, or the first bases on the way up come to the token class without an
element. -/
theorem exists_tokenElement_or_bare (hw : w.Linearized) (hclass : t.isClass = true)
    (h : w.ComesTo t u) : (∃ e, w.tokenElement t = some e) ∨
      ∃ v, Relation.ReflTransGen w.Prefers t v ∧ Bare v := by
  obtain ⟨cls, hroot, below⟩ := hw.isBelow_of_comesTo h
  rw [isBelow_rootClass hclass hroot] at below
  by_cases known : ∃ d, t = .builtin d
  · obtain ⟨d, rfl⟩ := known
    obtain rfl := eq_typeToken_of_mem (isBelow_typeToken.1 below)
    exact .inr ⟨_, .refl, rfl, rfl⟩
  · cases hfound : w.tokenElement t with
    | some e => exact .inl ⟨e, rfl⟩
    | none =>
      have token := (isToken_iff (fun d hd => known ⟨d, hd⟩) hclass).2 below
      exact .inr (hw.bare_of_elementAbove card_ranks_le token hfound rfl)

end Linearized

/-- The element of a token is found as it is written, whatever its variables are bound to. In every
world that is declared, a type has no element if it is no class or comes to no application of the
token class, and a class that comes to the token class has one, unless its first bases come to the
token class without an element. What is found is written in a base of a class that the type derives
from. If the type stands for one element only, this is the base that becomes the application to that
element when its variables are bound: what is found is right when none of its variables is bound,
and a token that stands for an element without variables is found to stand for it exactly if it is
written without variables. -/
theorem tokenElement_written {decls : List Value} (h : World.ofDeclarations decls = .ok w)
    (t : TypeExpr) :
    (t.isClass = false ∨ (∀ v, w.ComesTo t v → Bare v) → w.tokenElement t = none) ∧
    (t.isClass = true → (∃ v, w.ComesTo t v) → (∃ e, w.tokenElement t = some e) ∨
      ∃ v, Relation.ReflTransGen w.Prefers t v ∧ Bare v) ∧
    (∀ found, w.tokenElement t = some found → ∃ u b, Relation.ReflTransGen w.Derives t u ∧
      w.WrittenWith u b ∧ b.tokenArgument? = some found) ∧
    ∀ e, w.StandsFor t e → ∀ found, w.tokenElement t = some found →
      ∃ u, Relation.ReflTransGen w.Derives t u ∧ w.WrittenWith u (tokenOf found) ∧
        (tokenOf found).instantiate (w.bindings u.asApplied) = tokenOf e ∧
        ((∀ i ∈ found.varsWithin, w.bindings u.asApplied i = none) → found = e) ∧
        (e.varsWithin = [] → (found = e ↔ found.varsWithin = [])) := by
  have hw := Linearized.ofDeclarations h
  refine ⟨fun hno => ?_, fun hclass hcomes => ?_, fun found hfound => ?_,
    fun e stands found hfound => ?_⟩
  · cases hfound : w.tokenElement t with
    | none => rfl
    | some found =>
      obtain ⟨hclass, u, b, way, hb, he⟩ := hw.exists_written hfound
      obtain ⟨comes, given⟩ := comesTo_of_written way hb he
      rcases hno with hno | bare
      · exact absurd (hno.symm.trans hclass) Bool.false_ne_true
      · exact absurd (bare _ comes) given
  · obtain ⟨v, comes⟩ := hcomes
    exact hw.exists_tokenElement_or_bare hclass comes
  · exact (hw.exists_written hfound).2
  · obtain ⟨_, u, b, way, hb, he⟩ := hw.exists_written hfound
    obtain ⟨comes, given⟩ := comesTo_of_written way hb he
    have bound := (stands.only _ comes).resolve_left given
    obtain rfl := eq_tokenOf bound he
    have unchanged (unbound : ∀ i ∈ found.varsWithin, w.bindings u.asApplied i = none) :
        found = e := by
      rw [instantiate_of_unbound fun i hi => unbound i (varsWithin_tokenOf ▸ hi)] at bound
      cases bound
      rfl
    refine ⟨u, way, hb, bound, unchanged, fun closed => ⟨fun heq => heq ▸ closed, fun hvars => ?_⟩⟩
    exact unchanged fun i hi => by
      rw [hvars] at hi
      cases hi

/-- Pages are lists of something, and numbers are pages of integers. Named pages are pages of texts
below a token without an element. Names are a token of their own, and labels are names. -/
def tokenDecls : List Value := [
  .map [(.text "kind", .text "typevar"), (.text "id", .text "T")],
  .map [(.text "kind", .text "token"), (.text "id", .text "Page"),
    (.text "element", .map [(.text "g", .text "list"), (.text "a", .list [.text "T"])])],
  .map [(.text "kind", .text "token"), (.text "id", .text "Numbers"),
    (.text "bases", .list [.map [(.text "g", .text "Page"), (.text "a", .list [.text "int"])]])],
  .map [(.text "kind", .text "token"), (.text "id", .text "Listed")],
  .map [(.text "kind", .text "token"), (.text "id", .text "Named"),
    (.text "bases", .list [.text "Listed",
      .map [(.text "g", .text "Page"), (.text "a", .list [.text "str"])]])],
  .map [(.text "kind", .text "token"), (.text "id", .text "Names"),
    (.text "element", .map [(.text "g", .text "list"), (.text "a", .list [.text "str"])])],
  .map [(.text "kind", .text "token"), (.text "id", .text "Labels"),
    (.text "bases", .list [.text "Names"])]]

def pageOf (t : TypeExpr) : TypeExpr := .applied (.declared 1) [t]

def tokens : World where
  decls := [
    .typeVar "T",
    .cls {
      name := "Page"
      qualname := "Page"
      bases := [tokenOf (listOf (.typeVar 0))]
      above := [.builtin .typeToken, .builtin .object]
      typeVars := [0] },
    .cls {
      name := "Numbers"
      qualname := "Numbers"
      bases := [pageOf (.builtin .int)]
      above := [.declared 1, .builtin .typeToken, .builtin .object] },
    .cls {
      name := "Listed"
      qualname := "Listed"
      bases := [.builtin .typeToken]
      above := [.builtin .typeToken, .builtin .object] },
    .cls {
      name := "Named"
      qualname := "Named"
      bases := [.declared 3, pageOf (.builtin .str)]
      above := [.declared 3, .declared 1, .builtin .typeToken, .builtin .object] },
    .cls {
      name := "Names"
      qualname := "Names"
      bases := [tokenOf (listOf (.builtin .str))]
      above := [.builtin .typeToken, .builtin .object] },
    .cls {
      name := "Labels"
      qualname := "Labels"
      bases := [.declared 5]
      above := [.declared 5, .builtin .typeToken, .builtin .object] }]
  names := [("T", .typeVar 0), ("Page", .declared 1), ("Numbers", .declared 2),
    ("Listed", .declared 3), ("Named", .declared 4), ("Names", .declared 5),
    ("Labels", .declared 6)]

def numberPages : TypeExpr := .declared 2

def namedPages : TypeExpr := .declared 4

def labels : TypeExpr := .declared 6

theorem page_standsFor {t : TypeExpr}
    (h : (tokenOf (listOf (.typeVar 0))).instantiate (tokens.bindings (pageOf t)) =
      tokenOf (listOf t)) : tokens.StandsFor (pageOf t) (listOf t) := by
  refine .of_base rfl rfl List.mem_cons_self rfl ?_ fun b hb => .inl (List.mem_singleton.1 hb)
  exact h ▸ standsFor_tokenOf

theorem numbers_standsFor : tokens.StandsFor numberPages (listOf (.builtin .int)) :=
  .of_base rfl rfl List.mem_cons_self rfl (page_standsFor rfl)
    fun _ hb => .inl (List.mem_singleton.1 hb)

/-- The first base of the named pages has no element, so that they stand for that of the other. -/
theorem named_standsFor : tokens.StandsFor namedPages (listOf (.builtin .str)) := by
  refine .of_base rfl rfl (List.mem_cons_of_mem _ List.mem_cons_self) rfl (page_standsFor rfl)
    fun b hb => ?_
  rcases List.mem_cons.1 hb with rfl | hb
  · right
    intro v hv
    obtain ⟨b, hb, hv⟩ := exists_of_comesTo (i := 3) rfl rfl hv
    obtain rfl := List.mem_singleton.1 hb
    obtain rfl := eq_of_comesTo rfl hv
    exact ⟨rfl, rfl⟩
  · exact .inl (List.mem_singleton.1 hb)

theorem labels_standsFor : tokens.StandsFor labels (listOf (.builtin .str)) := by
  refine .of_base rfl rfl List.mem_cons_self rfl ?_ fun b hb => .inl (List.mem_singleton.1 hb)
  exact .of_base (i := 5) rfl rfl List.mem_cons_self rfl standsFor_tokenOf
    fun b hb => .inl (List.mem_singleton.1 hb)

/-- Every way up from the labels comes to the token class with an element. -/
theorem eq_of_comesTo_labels {v : TypeExpr} (h : tokens.ComesTo labels v) :
    v = tokenOf (listOf (.builtin .str)) := by
  obtain ⟨b, hb, h⟩ := exists_of_comesTo (i := 6) rfl rfl h
  obtain rfl := List.mem_singleton.1 hb
  obtain ⟨b, hb, h⟩ := exists_of_comesTo (i := 5) rfl rfl h
  obtain rfl := List.mem_singleton.1 hb
  exact eq_of_comesTo rfl h

/-- Labels are found to be a list of texts, since names are written without variables. -/
theorem tokenElement_written_labels : ofDeclarations tokenDecls = .ok tokens ∧
    tokens.StandsFor labels (listOf (.builtin .str)) ∧
    tokens.tokenElement labels = some (listOf (.builtin .str)) := by
  have declared : ofDeclarations tokenDecls = .ok tokens := rfl
  obtain ⟨_, finds, _, right⟩ := tokenElement_written declared labels
  have given : ¬ ∃ v, Relation.ReflTransGen tokens.Prefers labels v ∧ Bare v := by
    rintro ⟨v, way, bare⟩
    obtain rfl := eq_of_comesTo_labels
      ⟨Relation.ReflTransGen.mono (fun _ _ => Prefers.derives) _ _ way, bare.1⟩
    cases bare.2
  obtain ⟨found, hfound⟩ := (finds rfl ⟨_, labels_standsFor.comes⟩).resolve_right given
  obtain ⟨_, _, _, _, _, closed⟩ := right _ labels_standsFor found hfound
  have unwritten : found.varsWithin = [] := by
    cases hfound
    rfl
  exact ⟨declared, labels_standsFor, (closed rfl).2 unwritten ▸ hfound⟩

/-- Pages of numbers should be lists of numbers, and named pages lists of texts. The pages of
numbers are found to be lists of what pages are written with, which resolves to lists of anything,
and the named pages to have no element. -/
theorem tokens_misread : ofDeclarations tokenDecls = .ok tokens ∧
    (tokens.StandsFor numberPages (listOf (.builtin .int)) ∧
      tokens.Denotes [] (listOf (.builtin .int)) (.arrayOf integerSchema) ∧
      tokens.tokenElement numberPages = some (listOf (.typeVar 0)) ∧
      listOf (.typeVar 0) ≠ listOf (.builtin .int) ∧
      ∃ q, Run.resolve tokens numberPages {} = .ok (.arrayOf .opaqueObject) q) ∧
    tokens.StandsFor namedPages (listOf (.builtin .str)) ∧
      tokens.Denotes [] (listOf (.builtin .str)) (.arrayOf (.primitive .string none [])) ∧
      tokens.tokenElement namedPages = none ∧
      ∃ q, Run.resolve tokens namedPages {} = .ok .opaqueObject q := by
  have number : tokens.Denotes [] (.builtin .int) integerSchema := .fixed rfl
  have text : tokens.Denotes [] (.builtin .str) (.primitive .string none []) := .fixed rfl
  exact ⟨rfl, ⟨numbers_standsFor, .items rfl number, rfl, nofun, _, rfl⟩,
    named_standsFor, .items rfl text, rfl, _, rfl⟩

end World

end ApiCompiler
