import ApiCompiler.Declarations
import ApiCompiler.Proofs.Denotation
import ApiCompiler.Proofs.SameTypes

/-!
# Layers of declarations

A declaration is read when those before it are in place, so that the bases of a class, and the
classes above it, are declared before it. A token therefore stands for an element of classes that are
declared earlier than the token itself, while every other step from a type to the one that its
schema is made from leads to a part of the type as it is written. No chain of such steps goes on
for ever.
-/

set_option autoImplicit false

namespace ApiCompiler

/-- The class before arguments is declared before a position. -/
def Head.Below (n : Nat) : Head → Prop
  | .declared i | .container i => i < n
  | _ => True

namespace TypeExpr

mutual

/-- All classes of a type are declared before a position. -/
def Below (n : Nat) : TypeExpr → Prop
  | .declared i => i < n
  | .filled i args => i < n ∧ BelowAll n args
  | .applied head args => head.Below n ∧ BelowAll n args
  | .pending _ args | .union args | .either args => BelowAll n args
  | .annotated t _ | .classVar t | .required t | .notRequired t => Below n t
  | _ => True

def BelowAll (n : Nat) : List TypeExpr → Prop
  | [] => True
  | t :: ts => Below n t ∧ BelowAll n ts

end

section Below

variable {n m : Nat} {t u : TypeExpr} {ts us : List TypeExpr}

theorem belowAll_iff : BelowAll n ts ↔ ∀ t ∈ ts, t.Below n := by
  induction ts with
  | nil => simp [BelowAll]
  | cons t ts ih => simp [BelowAll, ih]

theorem BelowAll.subset (h : BelowAll n ts) (hu : us ⊆ ts) : BelowAll n us :=
  belowAll_iff.2 fun t ht => belowAll_iff.1 h t (hu ht)

theorem BelowAll.map {f : TypeExpr → TypeExpr} (h : BelowAll n ts)
    (hf : ∀ t : TypeExpr, t.Below n → (f t).Below n) : BelowAll n (ts.map f) := by
  refine belowAll_iff.2 fun u hu => ?_
  obtain ⟨t, ht, rfl⟩ := List.mem_map.1 hu
  exact hf t (belowAll_iff.1 h t ht)

theorem Head.Below.mono {head : Head} (hle : m ≤ n) (h : head.Below m) : head.Below n := by
  cases head with
  | builtin | generic => trivial
  | declared i => exact Nat.lt_of_lt_of_le h hle
  | container i => exact Nat.lt_of_lt_of_le h hle

mutual

theorem Below.mono (hle : m ≤ n) : ∀ t : TypeExpr, t.Below m → t.Below n
  | .declared _, h => Nat.lt_of_lt_of_le h hle
  | .filled _ args, h => ⟨Nat.lt_of_lt_of_le h.1 hle, BelowAll.mono hle args h.2⟩
  | .applied _ args, h => ⟨Head.Below.mono hle h.1, BelowAll.mono hle args h.2⟩
  | .pending _ args, h | .union args, h | .either args, h => BelowAll.mono hle args h
  | .annotated t _, h | .classVar t, h | .required t, h | .notRequired t, h => Below.mono hle t h
  | .null, _ | .ellipsis, _ | .noReturn, _ | .never, _ | .builtin _, _ | .generic _, _
  | .typeVar _, _ | .newType _, _ | .literal _, _ | .forward _, _ => trivial

theorem BelowAll.mono (hle : m ≤ n) : ∀ ts : List TypeExpr, BelowAll m ts → BelowAll n ts
  | [], _ => trivial
  | t :: ts, h => ⟨Below.mono hle t h.1, BelowAll.mono hle ts h.2⟩

end

mutual

theorem Below.exists : ∀ t : TypeExpr, ∃ n, t.Below n
  | .declared i => ⟨i + 1, Nat.lt_succ_self i⟩
  | .filled i args => by
    obtain ⟨n, hn⟩ := BelowAll.exists args
    exact ⟨max (i + 1) n, by omega, BelowAll.mono (Nat.le_max_right _ _) _ hn⟩
  | .applied head args => by
    obtain ⟨n, hn⟩ := BelowAll.exists args
    obtain ⟨m, hm⟩ : ∃ m, head.Below m := by
      cases head with
      | builtin | generic => exact ⟨0, trivial⟩
      | declared i | container i => exact ⟨i + 1, Nat.lt_succ_self i⟩
    exact ⟨max m n, Head.Below.mono (Nat.le_max_left _ _) hm,
      BelowAll.mono (Nat.le_max_right _ _) _ hn⟩
  | .pending _ args | .union args | .either args => BelowAll.exists args
  | .annotated t _ | .classVar t | .required t | .notRequired t => Below.exists t
  | .null | .ellipsis | .noReturn | .never | .builtin _ | .generic _ | .typeVar _ | .newType _
  | .literal _ | .forward _ => ⟨0, trivial⟩

theorem BelowAll.exists : ∀ ts : List TypeExpr, ∃ n, BelowAll n ts
  | [] => ⟨0, trivial⟩
  | t :: ts => by
    obtain ⟨m, hm⟩ := Below.exists t
    obtain ⟨n, hn⟩ := BelowAll.exists ts
    exact ⟨max m n, Below.mono (Nat.le_max_left _ _) _ hm,
      BelowAll.mono (Nat.le_max_right _ _) _ hn⟩

end

theorem Below.asType (h : t.Below n) : t.asType.Below n := by
  unfold TypeExpr.asType
  split
  · trivial
  · exact h

theorem Below.bare (h : t.Below n) : t.bare.Below n := by
  unfold TypeExpr.bare
  split
  · exact h
  · exact h

theorem Below.members (h : t.Below n) : BelowAll n t.members := by
  unfold TypeExpr.members
  split
  · exact h
  · exact h
  · exact ⟨h, trivial⟩

theorem distinct_subset (ts : List TypeExpr) : distinct ts ⊆ ts := by
  have grow (acc : List TypeExpr) : ts.foldl
      (fun acc t => if acc.any (same t) then acc else acc ++ [t]) acc ⊆ acc ++ ts := by
    induction ts generalizing acc with
    | nil => rw [List.append_nil]; exact List.Subset.refl _
    | cons t ts ih =>
      refine List.Subset.trans (ih _) ?_
      dsimp only
      split
      · exact List.append_subset.2 ⟨List.subset_append_left _ _,
          List.Subset.trans (List.subset_cons_self t ts) (List.subset_append_right _ _)⟩
      · rw [List.append_assoc]
        exact List.Subset.refl _
  exact grow []

/-- The members of the union of some types. -/
theorem BelowAll.joined (h : BelowAll n ts) :
    BelowAll n (distinct ((ts.map TypeExpr.asType).flatMap TypeExpr.members)) := by
  refine BelowAll.subset (belowAll_iff.2 fun u hu => ?_) (distinct_subset _)
  obtain ⟨t, ht, hu⟩ := List.mem_flatMap.1 hu
  have below := belowAll_iff.1 (h.map fun _ => Below.asType) t ht
  exact belowAll_iff.1 below.members u hu

theorem Below.makeUnion (h : BelowAll n ts) : (TypeExpr.makeUnion ts).Below n := by
  have joined := h.joined
  unfold TypeExpr.makeUnion
  split
  · rename_i heq
    rw [heq] at joined
    exact joined.1
  · exact joined

theorem Below.makeEither (ht : t.Below n) (hu : u.Below n) : (TypeExpr.makeEither t u).Below n := by
  have both : BelowAll n [t, u] := ⟨ht, hu, trivial⟩
  have joined := both.joined
  unfold TypeExpr.makeEither
  split
  · split
    · rename_i heq
      rw [heq] at joined
      exact joined.1
    · exact joined
  · exact .makeUnion both

theorem Below.makeEithers (h : BelowAll n ts) : (TypeExpr.makeEithers ts).Below n := by
  cases ts with
  | nil => trivial
  | cons t ts =>
    obtain ⟨ht, h⟩ := h
    change (ts.foldl TypeExpr.makeEither t).Below n
    induction ts generalizing t with
    | nil => exact ht
    | cons u ts ih => exact ih _ (ht.makeEither h.1) h.2

theorem Below.makeAnnotated {marks : Nat} (h : t.Below n) :
    (TypeExpr.makeAnnotated t marks).Below n := by
  have plain := h.asType
  unfold TypeExpr.makeAnnotated
  split
  · rename_i heq
    rw [heq] at plain
    exact plain
  · exact plain

theorem Below.makeApplied {head : Head} (hh : head.Below n) (h : BelowAll n ts) :
    (TypeExpr.makeApplied head ts).Below n := by
  refine ⟨hh, ?_⟩
  split
  · exact h
  · exact h.map fun _ => Below.asType

mutual

/-- Replacing variables by types of earlier classes keeps the classes of a type early. -/
theorem Below.replaceVars {f : Nat → TypeExpr} (hf : ∀ i, (f i).Below n) :
    ∀ t : TypeExpr, t.Below n → (TypeExpr.replaceVars f t).Below n
  | .typeVar i, _ => hf i
  | .applied _ args, h => .makeApplied h.1 (BelowAll.replaceVars hf args h.2)
  | .pending _ args, h => BelowAll.replaceVars hf args h
  | .union ts, h => .makeUnion (BelowAll.replaceVars hf ts h)
  | .either ts, h => .makeEithers (BelowAll.replaceVars hf ts h)
  | .annotated t _, h => .makeAnnotated (Below.replaceVars hf t h)
  | .classVar t, h | .required t, h | .notRequired t, h => Below.replaceVars hf t h
  | .declared _, h | .filled _ _, h => h
  | .null, _ | .ellipsis, _ | .noReturn, _ | .never, _ | .builtin _, _ | .generic _, _
  | .newType _, _ | .literal _, _ | .forward _, _ => trivial

theorem BelowAll.replaceVars {f : Nat → TypeExpr} (hf : ∀ i, (f i).Below n) :
    ∀ ts : List TypeExpr, BelowAll n ts → BelowAll n (replaceVarsList f ts)
  | [], _ => trivial
  | t :: ts, h => ⟨Below.replaceVars hf t h.1, BelowAll.replaceVars hf ts h.2⟩

end

theorem binding_mem {vars : List Nat} {i : Nat} (h : binding vars ts i = some t) : t ∈ ts := by
  obtain ⟨⟨j, u⟩, hfind, rfl⟩ := Option.map_eq_some_iff.1 h
  exact (List.of_mem_zip (List.mem_of_find?_eq_some hfind)).2

end Below

end TypeExpr

namespace World

open TypeExpr

variable {w : World} {n : Nat} {t u : TypeExpr} {ts : List TypeExpr}

/-- A type put together from types of earlier classes is one. -/
theorem subscript_below (ht : t.Below n) (hts : BelowAll n ts) (h : w.subscript t ts = some u) :
    u.Below n := by
  have plain : BelowAll n (ts.map TypeExpr.asType) := hts.map fun _ => Below.asType
  unfold subscript at h
  split at h
  · obtain rfl := Option.some.inj (Option.ite_none_right_eq_some.1 h).2
    exact .makeApplied trivial hts
  · obtain rfl := Option.some.inj (Option.ite_none_right_eq_some.1 h).2
    exact .makeApplied trivial hts
  · dsimp only at h
    split at h
    · cases h
      exact .makeApplied ht hts
    · split at h
      · cases h
      · split at h
        · split at h
          · cases h
            exact ht
          · cases h
            exact ⟨ht, plain⟩
        · cases h
          exact .makeApplied ht hts
  · dsimp only at h
    split at h
    · cases h
    · split at h
      · cases h
      · cases h
        refine Below.replaceVars (fun i => ?_) _ ht
        cases hb : binding (w.parameters t) ts i with
        | none => trivial
        | some v => exact belowAll_iff.1 hts v (binding_mem hb)

theorem lookupName_below (hn : ∀ e ∈ w.names, e.2.Below n) (name : String) :
    (w.lookupName name).Below n := by
  have special : ∀ e ∈ specialNames, e.2.Below n := by simp [specialNames, Below]
  unfold lookupName
  split
  · rename_i h
    exact special _ (Table.mem_of_get? h)
  · split
    · trivial
    · split
      · trivial
      · cases h : w.names.get? name with
        | none => trivial
        | some t => exact hn _ (Table.mem_of_get? h)

theorem typeOfForm_below {form : String} {values : List Scalar} (hts : BelowAll n ts)
    (h : typeOfForm form ts values = .ok u) : u.Below n := by
  have first : (ts.headD .null).Below n := by
    cases ts with
    | nil => trivial
    | cons t ts => exact hts.1
  unfold typeOfForm at h
  dsimp only at h
  split at h
  · obtain rfl := Except.ok.inj h
    exact .makeUnion hts
  · obtain rfl := Except.ok.inj h
    exact .makeUnion ⟨first, trivial, trivial⟩
  · obtain rfl := Except.ok.inj h
    exact .makeEithers hts
  · obtain rfl := Except.ok.inj h
    trivial
  · obtain rfl := Except.ok.inj h
    exact first.makeAnnotated
  · obtain rfl := Except.ok.inj h
    exact first.asType
  · obtain rfl := Except.ok.inj h
    exact first.asType
  · obtain rfl := Except.ok.inj h
    exact first.asType
  · cases h

/-- A type that is read is made of what is there already. -/
theorem readType_below (hn : ∀ e ∈ w.names, e.2.Below n) :
    (∀ v t, w.readType v = .ok t → t.Below n) ∧
      (∀ v ts, w.readTypes v = .ok ts → BelowAll n ts) ∧
      (∀ vs ts, w.readTypeList vs = .ok ts → BelowAll n ts) ∧
      ∀ es ts, w.readArguments es = .ok ts → BelowAll n ts := by
  refine readType.mutual_induct (fun v => ∀ t, w.readType v = .ok t → t.Below n)
    (fun v => ∀ ts, w.readTypes v = .ok ts → BelowAll n ts)
    (fun vs => ∀ ts, w.readTypeList vs = .ok ts → BelowAll n ts)
    (fun es => ∀ ts, w.readArguments es = .ok ts → BelowAll n ts)
    ?name ?applied ?literal ?union ?lone ?form ?other ?list ?noList ?nil ?cons ?noEntry
    ?arguments ?entry
  case name =>
    intro name t h
    obtain rfl := Except.ok.inj h
    exact lookupName_below hn name
  case applied =>
    intro arg rest ihead iargs t h
    unfold readType at h
    rw [if_pos rfl] at h
    obtain ⟨head, hhead, h⟩ := except_bind_ok.1 h
    obtain ⟨args, hargs, h⟩ := except_bind_ok.1 h
    split at h
    · obtain rfl := Except.ok.inj h
      exact iargs args hargs
    · split at h
      · rename_i hsub
        obtain rfl := Except.ok.inj h
        exact subscript_below (ihead head hhead) (iargs args hargs) hsub
      · cases h
  case literal =>
    intro arg rest hg t h
    unfold readType at h
    rw [if_neg hg, if_pos rfl] at h
    have parts : BelowAll n [] := trivial
    exact typeOfForm_below parts h
  case union =>
    intro form arg rest hg hl hu ih t h
    unfold readType at h
    rw [if_neg hg, if_neg hl, if_pos hu] at h
    obtain ⟨parts, hparts, h⟩ := except_bind_ok.1 h
    exact typeOfForm_below (ih parts hparts) h
  case lone =>
    intro arg rest hg hl hu t h
    unfold readType at h
    rw [if_neg hg, if_neg hl, if_neg hu, if_pos rfl] at h
    cases h
  case form =>
    intro form arg rest hg hl hu ha ih t h
    unfold readType at h
    rw [if_neg hg, if_neg hl, if_neg hu, if_neg ha] at h
    obtain ⟨part, hpart, h⟩ := except_bind_ok.1 h
    have parts : BelowAll n [part] := ⟨ih part hpart, trivial⟩
    exact typeOfForm_below parts h
  case other =>
    intro v hname hform t h
    unfold readType at h
    split at h
    · exact absurd rfl (hname _)
    · exact absurd rfl (hform _ _ _)
    · obtain rfl := Except.ok.inj h
      trivial
  case list =>
    intro vs ih ts h
    exact ih ts h
  case noList =>
    intro v hv ts h
    unfold readTypes at h
    split at h
    · exact absurd rfl (hv _)
    · obtain rfl := Except.ok.inj h
      trivial
  case nil =>
    intro ts h
    obtain rfl := Except.ok.inj h
    trivial
  case cons =>
    intro v vs ih ihs ts h
    obtain ⟨t, ht, h⟩ := except_bind_ok.1 h
    obtain ⟨ts, hts, h⟩ := except_bind_ok.1 h
    obtain rfl := Except.ok.inj h
    exact ⟨ih t ht, ihs ts hts⟩
  case noEntry =>
    intro ts h
    obtain rfl := Except.ok.inj h
    trivial
  case arguments =>
    intro v rest ih ts h
    exact ih ts h
  case entry =>
    intro e rest he ih ts h
    unfold readArguments at h
    split at h
    · rename_i heq
      cases heq
    · rename_i heq
      cases heq
      exact absurd rfl (he _)
    · rename_i heq
      cases heq
      exact ih ts h

/-- What holds of no declarations, and goes on to hold with each one that is added, holds of all of
them together. -/
theorem ofDeclarations_induction {P : World → Prop} {decls : List Value}
    (h : World.ofDeclarations decls = .ok w) (empty : P {})
    (typeVar : ∀ (w : World) id name, P w → P (w.addTypeVar id name))
    (newType : ∀ (w : World) id name, P w → P (w.addNewType id name))
    (name : ∀ (w : World) id v t, P w → w.readType v = .ok t → P (w.addName id t))
    (cls : ∀ (w : World), ∀ v ∈ decls, ∀ kind spec, P w → classKindOf v = some kind →
      w.readClass kind v = .ok spec → P (w.addClass spec)) : P w := by
  have step {w w' : World} {v : Value} (hw : P w) (hv : v ∈ decls) (h : w.declare v = .ok w') :
      P w' := by
    unfold World.declare at h
    dsimp only at h
    split at h
    · obtain rfl := Except.ok.inj h
      exact typeVar w _ _ hw
    · obtain ⟨_, _, h⟩ := except_bind_ok.1 h
      obtain rfl := Except.ok.inj h
      exact newType w _ _ hw
    · obtain ⟨t, ht, h⟩ := except_bind_ok.1 h
      obtain rfl := Except.ok.inj h
      exact name w _ _ t hw ht
    · split at h
      · rename_i kind hkind
        obtain ⟨spec, hspec, h⟩ := except_bind_ok.1 h
        obtain rfl := Except.ok.inj h
        exact cls w v hv kind spec hw hkind hspec
      · cases h
  have all {start : World} {vs : List Value} (hvs : ∀ v ∈ vs, v ∈ decls) (hw : P start)
      (h : start.declareAll vs = .ok w) : P w := by
    induction vs generalizing start with
    | nil =>
      obtain rfl := Except.ok.inj h
      exact hw
    | cons v vs ih =>
      obtain ⟨_, hv, h⟩ := except_bind_ok.1 h
      exact ih (fun u hu => hvs u (List.mem_cons_of_mem _ hu))
        (step hw (hvs v List.mem_cons_self) hv) h
  exact all (fun _ hv => hv) empty h

theorem readClass_bases {kind : ClassKind} {v : Value} {spec : ClassSpec}
    (h : w.readClass kind v = .ok spec) : w.readBases v = .ok spec.bases := by
  unfold readClass at h
  obtain ⟨bases, hbases, h⟩ := except_bind_ok.1 h
  obtain ⟨_, _, h⟩ := except_bind_ok.1 h
  obtain ⟨_, _, h⟩ := except_bind_ok.1 h
  obtain rfl := Except.ok.inj h
  exact hbases

/-- The bases of each class, and the classes above it, are declared before it, and names stand for
what is declared. -/
structure Layered (w : World) : Prop where
  names : ∀ e ∈ w.names, e.2.Below w.decls.length
  bases : ∀ i c, w.class? i = some c → BelowAll i c.bases
  above : ∀ i c, w.class? i = some c → BelowAll i c.above

theorem origin?_below (ht : t.Below n) (h : origin? t = some u) : u.Below n := by
  have headClass {head : Head} (h : head.Below n) : (headClass head).Below n := by
    cases head with
    | builtin | generic => trivial
    | declared | container => exact h
  unfold origin? at h
  split at h
  · obtain rfl := Option.some.inj h
    exact headClass ht.1
  · obtain rfl := Option.some.inj h
    trivial
  · cases h

theorem baseClass?_below (ht : t.Below n) (h : baseClass? t = some u) : u.Below n := by
  unfold baseClass? at h
  split at h
  · obtain rfl := Option.some.inj h
    exact ht
  · exact origin?_below ht h

theorem class?_iff {i : Nat} {c : ClassDecl} :
    w.class? i = some c ↔ w.decls[i]? = some (.cls c) := by
  unfold class?
  split
  · rename_i h
    rw [h, Option.some.injEq, Option.some.injEq, TypeDecl.cls.injEq]
  · rename_i h
    exact ⟨nofun, fun hc => absurd hc (h c)⟩

/-- One type stands inside of another one. -/
def Inside (u t : TypeExpr) : Prop := sizeOf u < sizeOf t ∧ ∀ n, t.Below n → u.Below n

theorem inside_arguments (h : u ∈ arguments t) : Inside u t := by
  unfold arguments at h
  split at h
  · rename_i head args
    have size := List.sizeOf_lt_of_mem h
    refine ⟨?_, fun n hn => belowAll_iff.1 hn.2 u h⟩
    rw [TypeExpr.applied.sizeOf_spec]
    omega
  · cases h

theorem Inside.of_bare (h : Inside u t.bare) : Inside u t := by
  have size : sizeOf t.bare ≤ sizeOf t := by
    unfold TypeExpr.bare
    split
    · rw [TypeExpr.annotated.sizeOf_spec]
      omega
    · exact Nat.le_refl _
  exact ⟨Nat.lt_of_lt_of_le h.1 size, fun n hn => h.2 n hn.bare⟩

theorem itemType_mem {c : Builtin} (h : itemType c ts = some u) : u ∈ ts := by
  unfold itemType at h
  split at h
  · dsimp only at h
    split at h
    · rename_i heq
      obtain rfl := Option.some.inj h
      have mem := distinct_subset _ (heq ▸ List.mem_singleton_self _)
      exact (List.mem_filter.1 mem).1
    · cases h
  · exact List.mem_of_mem_head? h

theorem ownShape_part (h : (w.ownShape t).part? = some u) : u ∈ arguments t := by
  unfold ownShape at h
  split at h
  any_goals cases h
  split at h
  · cases h
  · split at h
    · cases h
    · split at h
      · exact itemType_mem h
      · split at h
        · split at h
          · rename_i heq
            obtain rfl := Option.some.inj h
            rw [heq]
            exact List.mem_cons_of_mem _ List.mem_cons_self
          · cases h
        · cases h
    · cases h

/-- The schema of a type is made from that of an element, or from that of a smaller type inside. -/
theorem partOf_cases {o : Overrides} (h : w.PartOf o t u) :
    w.tokenElement t.bare = some u ∨ Inside u t := by
  have member {ts : List TypeExpr} (hts : t.bare = .union ts ∨ t.bare = .either ts)
      (hu : ts.filter (fun m => !m.same .noneType) = [u]) : Inside u t := by
    have mem : u ∈ ts := (List.mem_filter.1 (hu ▸ List.mem_singleton_self u)).1
    have size := List.sizeOf_lt_of_mem mem
    refine Inside.of_bare ?_
    rcases hts with hts | hts <;> rw [hts]
    · refine ⟨?_, fun n hn => belowAll_iff.1 hn u mem⟩
      rw [TypeExpr.union.sizeOf_spec]
      omega
    · refine ⟨?_, fun n hn => belowAll_iff.1 hn u mem⟩
      rw [TypeExpr.either.sizeOf_spec]
      omega
  unfold PartOf shape at h
  split at h
  · cases h
  · cases h
  · split at h
    · rename_i e he
      obtain rfl := Option.some.inj h
      exact .inl he
    · split at h
      · rename_i hts
        split at h
        · rename_i heq
          obtain rfl := Option.some.inj h
          exact .inr (member (.inl hts) heq)
        · cases h
      · rename_i hts
        split at h
        · rename_i heq
          obtain rfl := Option.some.inj h
          exact .inr (member (.inr hts) heq)
        · cases h
      · split at h
        · cases h
        · exact .inr (inside_arguments (ownShape_part h)).of_bare

namespace Layered

theorem lineage (hw : w.Layered) (ht : t.Below n) : BelowAll n (w.lineage t) := by
  have above {i : Nat} (hi : i < n) : BelowAll n (((w.class? i).map ClassDecl.above).getD []) := by
    cases hc : w.class? i with
    | none => trivial
    | some c => exact BelowAll.mono (Nat.le_of_lt hi) _ (hw.above i c hc)
  unfold World.lineage
  split
  · refine belowAll_iff.2 fun u hu => ?_
    obtain ⟨c, rfl⟩ : ∃ c, u = .builtin c := by
      rcases List.mem_append.1 hu with hu | hu
      · rcases List.mem_cons.1 hu with rfl | hu
        · exact ⟨_, rfl⟩
        · obtain ⟨c, _, rfl⟩ := List.mem_map.1 hu
          exact ⟨c, rfl⟩
      · split at hu
        · cases hu
        · exact ⟨.object, List.mem_singleton.1 hu⟩
    trivial
  · exact ⟨ht, above ht⟩
  · exact ⟨ht, ht.1, above ht.1⟩
  · trivial

theorem mergeLines_subset (bound : Nat) (lines : List (List TypeExpr)) :
    mergeLines bound lines ⊆ lines.flatten := by
  induction bound generalizing lines with
  | zero => exact distinct_subset _
  | succ bound ih =>
    have fewer : (lines.filter (!·.isEmpty)).flatten ⊆ lines.flatten := by
      intro t ht
      obtain ⟨line, hline, ht⟩ := List.mem_flatten.1 ht
      exact List.mem_flatten.2 ⟨line, (List.mem_filter.1 hline).1, ht⟩
    have dropped (c : TypeExpr) (ls : List (List TypeExpr)) :
        (dropHead c ls).flatten ⊆ ls.flatten := by
      intro t ht
      obtain ⟨line, hline, ht⟩ := List.mem_flatten.1 ht
      obtain ⟨whole, hwhole, rfl⟩ := List.mem_map.1 hline
      refine List.mem_flatten.2 ⟨whole, hwhole, ?_⟩
      cases whole with
      | nil => exact ht
      | cons d ds =>
        dsimp only at ht
        split at ht
        · exact List.mem_cons_of_mem _ ht
        · exact ht
    unfold mergeLines
    dsimp only
    split
    · rename_i c hc
      have others := List.Subset.trans (ih _) (dropped c (lines.filter (!·.isEmpty)))
      refine List.cons_subset.2 ⟨?_, List.Subset.trans others fewer⟩
      obtain ⟨line, hline, hhead⟩ := List.mem_filterMap.1 (List.mem_of_find?_eq_some hc)
      exact fewer (List.mem_flatten.2 ⟨line, hline, List.mem_of_mem_head? hhead⟩)
    · exact List.Subset.trans (distinct_subset _) fewer

theorem linearize (hw : w.Layered) (hts : BelowAll n ts) : BelowAll n (w.linearize ts) := by
  have classes : BelowAll n (ts.filterMap baseClass?) := by
    refine belowAll_iff.2 fun u hu => ?_
    obtain ⟨t, ht, hbase⟩ := List.mem_filterMap.1 hu
    exact baseClass?_below (belowAll_iff.1 hts t ht) hbase
  unfold World.linearize
  dsimp only
  refine BelowAll.subset (belowAll_iff.2 fun u hu => ?_) (mergeLines_subset _ _)
  have lines {cs : List TypeExpr} (hcs : BelowAll n cs)
      (hu : u ∈ (cs.map w.lineage ++ [cs]).flatten) : u.Below n := by
    obtain ⟨line, hline, hu⟩ := List.mem_flatten.1 hu
    rcases List.mem_append.1 hline with hline | hline
    · obtain ⟨c, hc, rfl⟩ := List.mem_map.1 hline
      exact belowAll_iff.1 (hw.lineage (belowAll_iff.1 hcs c hc)) u hu
    · rw [List.mem_singleton.1 hline] at hu
      exact belowAll_iff.1 hcs u hu
  split at hu
  · have root : BelowAll n [.builtin .object] := ⟨trivial, trivial⟩
    exact lines root hu
  · exact lines classes hu

/-- The classes above a class are as early as its bases. -/
theorem classesAbove (hw : w.Layered) {spec : ClassSpec} (h : BelowAll n spec.bases) :
    BelowAll n (spec.above w) := by
  unfold ClassSpec.above
  split
  · exact hw.linearize ⟨trivial, trivial⟩
  · exact hw.linearize trivial
  · exact hw.linearize h

/-- Putting a declaration behind the others, with a name for what is declared. -/
theorem extend (hw : w.Layered) {d : TypeDecl} {names : Table TypeExpr}
    (hnames : ∀ e ∈ names, e.2.Below (w.decls.length + 1))
    (hd : ∀ c, d = .cls c → BelowAll w.decls.length c.bases ∧ BelowAll w.decls.length c.above) :
    Layered { decls := w.decls ++ [d], names } := by
  have class_cases {i : Nat} {c : ClassDecl}
      (h : World.class? { decls := w.decls ++ [d], names } i = some c) :
      w.class? i = some c ∨ i = w.decls.length ∧ d = .cls c := by
    rw [class?_iff, List.getElem?_append] at h
    split at h
    · exact .inl (class?_iff.2 h)
    · obtain ⟨hi, h⟩ := List.getElem?_eq_some_iff.1 h
      have hlength : i - w.decls.length < 1 := hi
      exact .inr ⟨by omega, (List.getElem_singleton hi).symm.trans h⟩
  refine ⟨?_, fun i c h => ?_, fun i c h => ?_⟩
  · intro e he
    rw [List.length_append]
    exact hnames e he
  · rcases class_cases h with h | ⟨rfl, rfl⟩
    · exact hw.bases i c h
    · exact (hd c rfl).1
  · rcases class_cases h with h | ⟨rfl, rfl⟩
    · exact hw.above i c h
    · exact (hd c rfl).2

/-- One declaration may change, as long as a class keeps its bases and the classes above it. -/
theorem modify (hw : w.Layered) {f : TypeDecl → TypeDecl}
    (hf : ∀ d c, f d = .cls c → ∃ c', d = .cls c' ∧ c.bases = c'.bases ∧ c.above = c'.above)
    (j : Nat) : Layered { w with decls := w.decls.modify j f } := by
  have class_cases {k : Nat} {c : ClassDecl}
      (h : World.class? { w with decls := w.decls.modify j f } k = some c) :
      ∃ c', w.class? k = some c' ∧ c.bases = c'.bases ∧ c.above = c'.above := by
    rw [class?_iff, List.getElem?_modify] at h
    obtain ⟨d, hd, h⟩ := Option.map_eq_some_iff.1 h
    split at h
    · obtain ⟨c', rfl, hb, ha⟩ := hf d c h
      exact ⟨c', class?_iff.2 hd, hb, ha⟩
    · exact ⟨c, class?_iff.2 (h ▸ hd), rfl, rfl⟩
  refine ⟨?_, fun k c h => ?_, fun k c h => ?_⟩
  · intro e he
    rw [List.length_modify]
    exact hw.names e he
  · obtain ⟨c', hc, hb, _⟩ := class_cases h
    exact hb ▸ hw.bases k c' hc
  · obtain ⟨c', hc, _, ha⟩ := class_cases h
    exact ha ▸ hw.above k c' hc

theorem nestIn (hw : w.Layered) (outer name : String) (i : Nat) :
    (World.nestIn outer name i w).Layered := by
  unfold World.nestIn
  split
  · refine hw.modify (fun d c h => ?_) _
    cases d with
    | typeVar | newType => cases h
    | cls c' =>
      cases h
      exact ⟨c', rfl, rfl, rfl⟩
  · exact hw

/-- Putting a declaration behind the others and naming what it declares. -/
theorem addDecl (hw : w.Layered) {d : TypeDecl} {id : String}
    (hd : ∀ c, d = .cls c → BelowAll w.decls.length c.bases ∧ BelowAll w.decls.length c.above)
    (ht : t.Below (w.decls.length + 1)) :
    Layered { decls := w.decls ++ [d], names := w.names.insert id t } :=
  hw.extend (Table.forall_insert (fun e he => Below.mono (Nat.le_succ _) _ (hw.names e he)) ht) hd

theorem addClassDecl (hw : w.Layered) {spec : ClassSpec}
    (h : BelowAll w.decls.length spec.bases) :
    Layered { decls := w.decls ++ [.cls (spec.declare w)]
              names := w.names.insert spec.id (.declared w.decls.length) } := by
  refine hw.addDecl (fun c hc => ?_) (Nat.lt_succ_self _)
  obtain rfl := TypeDecl.cls.inj hc
  exact ⟨h, hw.classesAbove h⟩

theorem addClass (hw : w.Layered) {spec : ClassSpec} (h : BelowAll w.decls.length spec.bases) :
    (w.addClass spec).Layered := by
  unfold World.addClass
  dsimp only
  split
  · exact (hw.addClassDecl h).nestIn _ _ _
  · exact hw.addClassDecl h

theorem readBases (hw : w.Layered) {v : Value} (h : w.readBases v = .ok ts) :
    BelowAll w.decls.length ts := by
  obtain ⟨read, reads, _⟩ := readType_below hw.names
  obtain ⟨bases, hbases, h⟩ := except_bind_ok.1 h
  have below := reads _ bases hbases
  split at h
  · split at h
    · obtain ⟨element, helement, h⟩ := except_bind_ok.1 h
      obtain rfl := Except.ok.inj h
      exact ⟨.makeApplied trivial ⟨read _ element helement, trivial⟩, below⟩
    · obtain rfl := Except.ok.inj h
      split
      · exact ⟨trivial, trivial⟩
      · exact below
  · obtain rfl := Except.ok.inj h
    exact below

theorem readClass (hw : w.Layered) {kind : ClassKind} {v : Value} {spec : ClassSpec}
    (h : w.readClass kind v = .ok spec) : BelowAll w.decls.length spec.bases :=
  hw.readBases (readClass_bases h)

theorem addName (hw : w.Layered) {id : String} (ht : t.Below w.decls.length) :
    (w.addName id t).Layered :=
  ⟨Table.forall_insert hw.names ht, hw.bases, hw.above⟩

theorem layered_empty : Layered {} where
  names e he := by cases he
  bases i c h := by cases h
  above i c h := by cases h

/-- Declarations come in layers, whatever they are. -/
theorem ofDeclarations {decls : List Value} (h : World.ofDeclarations decls = .ok w) :
    w.Layered := by
  refine ofDeclarations_induction h layered_empty ?typeVar ?newType ?name ?cls
  case typeVar => exact fun w id name hw => hw.addDecl (fun _ h => TypeDecl.noConfusion h) trivial
  case newType => exact fun w id name hw => hw.addDecl (fun _ h => TypeDecl.noConfusion h) trivial
  case name => exact fun w id v t hw ht => hw.addName ((readType_below hw.names).1 _ t ht)
  case cls => exact fun w v _ kind spec hw _ hspec => hw.addClass (hw.readClass hspec)

/-- Known classes are no tokens. -/
theorem not_isToken_builtin (c : Builtin) : w.isToken (.builtin c) = false := by
  cases c <;> rfl

theorem keptBases_subset {c : ClassDecl} (h : keptBases c = some ts) : ts ⊆ c.bases := by
  unfold keptBases at h
  cases hk : c.kind with
  | plain | dataclass | model =>
    rw [hk] at h
    obtain rfl := Option.some.inj (Option.ite_none_left_eq_some.1 h).2
    exact List.Subset.refl _
  | typedDict | namedTuple =>
    rw [hk] at h
    obtain rfl := Option.some.inj h
    exact List.nil_subset _
  | enumeration =>
    rw [hk] at h
    cases h

theorem writtenBases_below (hw : w.Layered) (h : BelowAll (n + 1) (w.lineage t)) :
    BelowAll n (w.writtenBases t) := by
  unfold writtenBases
  cases hfind : (w.lineage t).findSome? _ with
  | none => trivial
  | some bases =>
    obtain ⟨u, hu, hbases⟩ := List.exists_of_findSome?_eq_some hfind
    have empty (h : some [] = some bases) : BelowAll n bases := Option.some.inj h ▸ trivial
    split at hbases
    · rename_i i
      have hi : i < n + 1 := belowAll_iff.1 h _ hu
      obtain ⟨c, hc, kept⟩ := Option.bind_eq_some_iff.1 hbases
      exact (BelowAll.mono (by omega) _ (hw.bases i c hc)).subset (keptBases_subset kept)
    · exact empty hbases
    · exact empty hbases
    · exact empty hbases
    · exact empty hbases
    · cases hbases

theorem elementIn_below (h : BelowAll n ts) (he : elementIn ts = some u) : u.Below n := by
  obtain ⟨b, hb, he⟩ := List.exists_of_findSome?_eq_some he
  have below := belowAll_iff.1 h b hb
  split at he
  · obtain rfl := Option.some.inj he
    exact below.2.1
  · cases he

theorem elementAbove_below (hw : w.Layered) {bound : Nat} (ht : t.Below (n + 1))
    (he : w.elementAbove bound t = some u) : u.Below n := by
  induction bound generalizing t with
  | zero => cases he
  | succ bound ih =>
    have lines := hw.lineage ht
    unfold elementAbove at he
    split at he
    · split at he
      · rename_i e hwritten
        obtain rfl := Option.some.inj he
        exact elementIn_below (hw.writtenBases_below lines) hwritten
      · obtain ⟨v, hv, he⟩ := Option.bind_eq_some_iff.1 he
        have mem : v ∈ w.lineage t := List.mem_of_mem_drop (List.mem_of_find?_eq_some hv)
        exact ih (belowAll_iff.1 lines v mem) he
    · cases he

/-- The element of a token is of earlier classes than the token. -/
theorem tokenElement_below (hw : w.Layered) (he : w.tokenElement t = some u) :
    ∃ i, u.Below i ∧ ∀ n, t.Below n → i < n := by
  cases t with
  | declared i =>
    have head : Below (i + 1) (.declared i) := Nat.lt_succ_self i
    exact ⟨i, hw.elementAbove_below head he, fun _ h => h⟩
  | filled i args =>
    have he' : w.tokenElement (.filled i []) = some u := tokenElement_filled.trans he
    have head : Below (i + 1) (.filled i []) := ⟨Nat.lt_succ_self i, trivial⟩
    exact ⟨i, hw.elementAbove_below head he', fun _ h => h.1⟩
  | builtin c =>
    unfold tokenElement at he
    cases hlength : (w.lineage (.builtin c)).length with
    | zero => rw [hlength] at he; cases he
    | succ k =>
      rw [hlength, elementAbove, not_isToken_builtin] at he
      cases he
  | _ => cases he

/-- No chain of types, each made from the next, goes on for ever. The outer induction is on the
position that the classes of the type are below, for tokens, the inner one on the type. -/
theorem partOf_wf (hw : w.Layered) (o : Overrides) :
    WellFounded fun u t => w.PartOf o t u := by
  have acc (n : Nat) : ∀ t : TypeExpr, t.Below n → Acc (fun u t => w.PartOf o t u) t := by
    induction n using Nat.strongRecOn with
    | ind n earlier =>
      intro t
      induction hs : sizeOf t using Nat.strongRecOn generalizing t with
      | ind k smaller =>
        intro ht
        refine ⟨t, fun u hu => ?_⟩
        rcases partOf_cases hu with he | ⟨hsize, hbelow⟩
        · obtain ⟨i, hi, hlt⟩ := hw.tokenElement_below he
          exact earlier i (hlt n ht.bare) u hi
        · exact smaller (sizeOf u) (hs ▸ hsize) u rfl (hbelow n ht)
  refine ⟨fun t => ?_⟩
  obtain ⟨n, hn⟩ := Below.exists t
  exact acc n t hn

end Layered

end World

end ApiCompiler
