import ApiCompiler.Compilation.Compile
import ApiCompiler.Proofs.NewModels

/-!
# Types that are overridden

A table of overrides gives types the schemas of primitive names. Only one place reads it, after the
tests for annotations, for the null value, for tokens and for unions. A type that passes these tests
has the schema of its entry wherever it occurs, whatever its own form is. The entry of any other type
is never read: resolution is the same as if it were not in the table.
-/

set_option autoImplicit false

namespace ApiCompiler

namespace Overrides

variable {α : Type} {entries : List (TypeExpr × String)} {acc o : Overrides} {t : TypeExpr}
  {s : Schema}

/-- No type of a table occurs in it again. -/
def Apart (entries : List (TypeExpr × α)) : Prop :=
  entries.Pairwise fun e e' => e.1.same e'.1 = false

/-- Types with primitive names, and the same types with the schemas of the names. -/
def Made (entries : List (TypeExpr × String)) (o : Overrides) : Prop :=
  List.Forall₂ (fun e e' => e'.1 = e.1 ∧ Primitive.find? e.2 = some e'.2) entries o

theorem check_ok {name : String} :
    Primitive.check (some name) = .ok s ↔ Primitive.find? name = some s := by
  unfold Primitive.check
  rw [Option.getD_some]
  cases Primitive.find? name <;> simp

/-- What a table is given is the schema of a primitive name. -/
theorem ofNames_find (h : ofNames entries acc = .ok o) :
    ∀ e ∈ o, e ∈ acc ∨ ∃ name, Primitive.find? name = some e.2 := by
  induction entries generalizing acc with
  | nil =>
    obtain rfl := Except.ok.inj h
    exact fun e he => .inl he
  | cons entry entries ih =>
    obtain ⟨t, name⟩ := entry
    obtain ⟨s, hs, h⟩ := except_bind_ok.1 h
    intro e he
    rcases ih h e he with he | made
    · rcases mem_insert he with rfl | he
      · exact .inr ⟨name, check_ok.1 hs⟩
      · exact .inl he
    · exact .inr made

theorem find_of_ofNames (h : ofNames entries [] = .ok o) {e : TypeExpr × Schema} (he : e ∈ o) :
    ∃ name, Primitive.find? name = some e.2 :=
  (ofNames_find h e he).resolve_left List.not_mem_nil

theorem insert_of_new (h : ∀ e ∈ o, e.1.same t = false) : insert t s o = o ++ [(t, s)] := by
  induction o with
  | nil => rfl
  | cons e o ih =>
    obtain ⟨u, s'⟩ := e
    have hu : u.same t = false := h _ List.mem_cons_self
    rw [insert, if_neg (by rw [hu]; exact Bool.false_ne_true),
      ih fun e he => h e (List.mem_cons_of_mem _ he)]
    rfl

theorem ofNames_iff_append (apart : Apart entries)
    (new : ∀ e ∈ acc, ∀ e' ∈ entries, e.1.same e'.1 = false) :
    ofNames entries acc = .ok o ↔ ∃ added, o = acc ++ added ∧ Made entries added := by
  induction entries generalizing acc with
  | nil =>
    constructor
    · intro h
      exact ⟨[], by rw [List.append_nil]; exact (Except.ok.inj h).symm, .nil⟩
    · rintro ⟨added, rfl, hadded⟩
      cases hadded
      rw [List.append_nil]
      rfl
  | cons e entries ih =>
    obtain ⟨t, name⟩ := e
    obtain ⟨ht, hrest⟩ := List.pairwise_cons.1 apart
    have put (s : Schema) : insert t s acc = acc ++ [(t, s)] :=
      insert_of_new fun e he => new e he _ List.mem_cons_self
    have later (s : Schema) : ∀ e ∈ acc ++ [(t, s)], ∀ e' ∈ entries, e.1.same e'.1 = false := by
      intro e he e' he'
      rcases List.mem_append.1 he with he | he
      · exact new e he e' (List.mem_cons_of_mem _ he')
      · rw [List.mem_singleton.1 he]
        exact ht e' he'
    constructor
    · intro h
      obtain ⟨s, hs, h⟩ := except_bind_ok.1 h
      rw [put] at h
      obtain ⟨added, rfl, hadded⟩ := (ih hrest (later s)).1 h
      exact ⟨(t, s) :: added, List.append_assoc _ _ _, .cons ⟨rfl, check_ok.1 hs⟩ hadded⟩
    · rintro ⟨_, rfl, hadded⟩
      obtain ⟨⟨u, s⟩, added, ⟨hu, hs⟩, rest, rfl⟩ := List.forall₂_cons_left_iff.1 hadded
      obtain rfl : u = t := hu
      refine except_bind_ok.2 ⟨s, check_ok.2 hs, ?_⟩
      rw [put]
      exact (ih hrest (later s)).2 ⟨added, (List.append_assoc _ [_] added).symm, rest⟩

/-- A table of types that come once each has an entry for each of them, in the given order. -/
theorem ofNames_iff (apart : Apart entries) : ofNames entries [] = .ok o ↔ Made entries o := by
  have first : ∀ e ∈ ([] : Overrides), ∀ e' ∈ entries, e.1.same e'.1 = false := by
    intro e he
    cases he
  rw [ofNames_iff_append apart first]
  exact ⟨by rintro ⟨_, rfl, h⟩; exact h, fun h => ⟨o, rfl, h⟩⟩

theorem Made.apart (h : Made entries o) (apart : Apart entries) : Apart o := by
  have types : o.map Prod.fst = entries.map Prod.fst := by
    induction h with
    | nil => rfl
    | cons he _ ih =>
      rw [List.map_cons, List.map_cons, he.1, ih (List.pairwise_cons.1 apart).2]
  have of_types (β : Type) (l : List (TypeExpr × β)) :
      Apart l ↔ (l.map Prod.fst).Pairwise fun t u => t.same u = false := by
    rw [List.pairwise_map]
    rfl
  rw [of_types, types, ← of_types]
  exact apart

theorem Made.split {before after : List (TypeExpr × String)} {name : String}
    (h : Made (before ++ (t, name) :: after) o) :
    ∃ first s last, o = first ++ (t, s) :: last ∧ Primitive.find? name = some s ∧
      Made before first ∧ Made after last := by
  induction before generalizing o with
  | nil =>
    obtain ⟨⟨u, s⟩, last, ⟨hu, hs⟩, rest, rfl⟩ := List.forall₂_cons_left_iff.1 h
    obtain rfl : u = t := hu
    exact ⟨[], s, last, rfl, hs, .nil, rest⟩
  | cons e before ih =>
    obtain ⟨e', o', he, rest, rfl⟩ := List.forall₂_cons_left_iff.1 h
    obtain ⟨first, s, last, rfl, hs, hfirst, hlast⟩ := ih rest
    exact ⟨e' :: first, s, last, rfl, hs, .cons he hfirst, hlast⟩

theorem find?_cons (u : TypeExpr) :
    find? ((t, s) :: o) u = if t.same u then some s else find? o u := by
  unfold find?
  rw [List.find?_cons]
  dsimp only
  cases t.same u <;> rfl

theorem find?_append (before after : Overrides) (u : TypeExpr) :
    find? (before ++ after) u = (find? before u).or (find? after u) := by
  induction before with
  | nil => rfl
  | cons e before ih =>
    obtain ⟨t, s⟩ := e
    rw [List.cons_append, find?_cons, find?_cons, ih]
    split <;> rfl

/-- A type of a table is found there. -/
theorem find?_of_mem (apart : Apart o) (h : (t, s) ∈ o) : o.find? t = some s := by
  induction o with
  | nil => cases h
  | cons e o ih =>
    obtain ⟨u, s'⟩ := e
    obtain ⟨hu, hrest⟩ := List.pairwise_cons.1 apart
    rw [find?_cons]
    rcases List.mem_cons.1 h with h | h
    · obtain ⟨rfl, rfl⟩ := Prod.mk.inj h
      rw [if_pos (TypeExpr.same_refl t)]
    · rw [if_neg (by rw [hu _ h]; exact Bool.false_ne_true), ih hrest h]

end Overrides

namespace World

variable {w : World} {t u : TypeExpr} {o o' : Overrides} {s : Schema}

/-- The tests that come before the table of overrides let a type pass. -/
def overridable (w : World) (t : TypeExpr) : Bool :=
  match t with
  | .null | .noneType | .union _ | .either _ | .annotated .. => false
  | t => (w.tokenElement t).isNone

theorem tokenElement_of_overridable (h : w.overridable t = true) : w.tokenElement t = none := by
  unfold overridable at h
  split at h
  any_goals cases h
  exact Option.isNone_iff_eq_none.1 h

/-- Of types that are the same, both pass the tests or none. -/
theorem overridable_of_same (h : t.same u = true) : w.overridable t = w.overridable u := by
  unfold TypeExpr.same at h
  split at h
  any_goals rfl
  · rw [eq_of_beq h]
  · rw [eq_of_beq h]
  · obtain rfl := eq_of_beq (Bool.and_eq_true_iff.1 h).1
    exact congrArg Option.isNone tokenElement_filled
  · cases h

/-- The table is read for types that pass the tests. -/
theorem shape_of_overridable (h : w.overridable u.bare = true) :
    w.shape o u = match o.find? u.bare with
      | some s => .fixed s
      | none => w.ownShape u.bare := by
  have tested {v : TypeExpr} (hv : u.bare = v) : w.overridable v = true := hv ▸ h
  unfold shape
  split
  · rename_i hv
    cases tested hv
  · rename_i hv
    cases tested hv
  · rw [tokenElement_of_overridable h]
    dsimp only
    split
    · rename_i hv
      cases tested hv
    · rename_i hv
      cases tested hv
    · rfl

/-- The table is not read for any other type. -/
theorem shape_of_not_overridable (h : w.overridable u.bare = false)
    (hu : ∀ v marks, u.bare ≠ .annotated v marks) : w.shape o u = w.shape o' u := by
  unfold overridable at h
  unfold shape
  split at h
  case h_5 v marks hv => exact absurd hv (hu v marks)
  case h_6 =>
    split
    · rfl
    · rfl
    · cases he : w.tokenElement u.bare with
      | none => rw [he] at h; cases h
      | some e => rfl
  all_goals
    rename_i hv
    rw [hv]

theorem shape_of_found (h : w.overridable u.bare = true) (hs : o.find? u.bare = some s) :
    w.shape o u = .fixed s := by
  rw [shape_of_overridable h, hs]

/-- Taking the entry of a type that fails the tests out of a table changes no shape. -/
theorem shape_of_idle {before after : Overrides} (h : w.overridable t = false)
    (hu : ∀ v marks, u.bare ≠ .annotated v marks) :
    w.shape (before ++ (t, s) :: after) u = w.shape (before ++ after) u := by
  by_cases tested : w.overridable u.bare = true
  · have other : t.same u.bare = false := by
      rw [← Bool.not_eq_true]
      intro hsame
      rw [overridable_of_same hsame, tested] at h
      cases h
    have found : Overrides.find? (before ++ (t, s) :: after) u.bare =
        Overrides.find? (before ++ after) u.bare := by
      rw [Overrides.find?_append, Overrides.find?_append, Overrides.find?_cons, other]
      rfl
    rw [shape_of_overridable tested, shape_of_overridable tested, found]
  · exact shape_of_not_overridable (Bool.eq_false_iff.2 tested) hu

/-- A schema stands for a type, with or without marks on it, wherever the type occurs. -/
structure Stands (w : World) (o : Overrides) (t : TypeExpr) (s : Schema) : Prop where
  alone : ∀ (bound : Nat) (u : TypeExpr) (p : Progress), u.bare = t → p.registry.overrides = o →
    Run.resolveWithin w (bound + 1) u p = .ok s p
  /-- As the items of an array, the values of a map, the only member of a union besides the null
  value, or the element of a token. -/
  part : ∀ (bound : Nat) (v u : TypeExpr) (p : Progress), u.bare = t → w.PartOf o v u →
    p.registry.overrides = o →
    Run.resolveWithin w (bound + 2) v p = .ok ((w.shape o v).around s) p
  /-- As the type of a field of a model that is built anew. -/
  field : ∀ (bound : Nat) (v : TypeExpr) (fields : List ModelField) (name : String) (r : Schema)
    (p q : Progress), w.HasFields o v fields → w.modelName v.bare = .ok name →
    p.registry.overrides = o → name ∉ p.registry.resolving →
    p.registry.isCurrent name v.bare = false →
    Run.resolveWithin w (bound + 1) v p = .ok r q →
    ∃ schemas, List.Forall₂ (fun f r => f.type.bare = t → r = s) fields schemas ∧
      q.registry.models.get? name = some (Run.objectModel name (p.registry.models.get? name)
        (Table.ofList (fieldProperties fields schemas)) (requiredNames fields))
  argument : ∀ (args : List Argument) (shaped : List (Argument × Schema)) (p q : Progress),
    p.registry.overrides = o → Run.resolveArguments w args p = .ok shaped q →
    ∀ a r, (a, r) ∈ shaped → TypeExpr.bare a.annotation = t → r = s
  payload : ∀ (m : Method) (u : TypeExpr) (headers : Table Schema) (op : Operation) (p : Progress),
    w.payloadType m = some u → u.bare = t → p.registry.overrides = o →
    ∃ q, Run.successResponse w m headers op p = .ok (op.setResponse 200
      { description := successText, shape := some (s.inContainer m.operation.responseContainer)
        headers }) q

theorem resolveWithin_found {bound : Nat} {p : Progress} (h : w.overridable u.bare = true)
    (hs : p.registry.overrides.find? u.bare = some s) :
    Run.resolveWithin w (bound + 1) u p = .ok s p := by
  change Run.resolveShape w (Run.resolveWithin w bound) u p = .ok s p
  unfold Run.resolveShape
  rw [Run.bind_of_ok (Run.get_apply p), shape_of_found h hs]
  rfl

section Found

variable {p q : Progress} (h : w.overridable t = true) (hs : o.find? t = some s)
include h hs

/-- Nothing else is found for a type that is overridden. -/
theorem resolveWithin_found_only {bound : Nat} {r : Schema} (hu : u.bare = t)
    (hp : p.registry.overrides = o) (hr : Run.resolveWithin w bound u p = .ok r q) : r = s := by
  subst hu hp
  cases bound with
  | zero => cases hr
  | succ bound =>
    exact (EStateM.Result.ok.inj (hr.symm.trans (resolveWithin_found h hs))).1

theorem resolveArguments_found {args : List Argument} {shaped : List (Argument × Schema)}
    (hp : p.registry.overrides = o) (hr : Run.resolveArguments w args p = .ok shaped q) :
    ∀ a r, (a, r) ∈ shaped → TypeExpr.bare a.annotation = t → r = s := by
  induction args generalizing shaped p q with
  | nil =>
    obtain ⟨rfl, _⟩ := Run.pure_ok.1 hr
    intro a r he
    cases he
  | cons a args ih =>
    obtain ⟨r, p', first, hr⟩ := Run.bind_ok.1 hr
    obtain ⟨more, q', rest, hr⟩ := Run.bind_ok.1 hr
    obtain ⟨rfl, _⟩ := Run.pure_ok.1 hr
    intro b r' he hb
    rcases List.mem_cons.1 he with he | he
    · obtain ⟨rfl, rfl⟩ := Prod.mk.inj he
      exact resolveWithin_found_only h hs hb hp first
    · exact ih ((Run.resolveWithin_evolves w first).overrides.trans hp) rest b r' he hb

theorem successResponse_found {m : Method} {headers : Table Schema} {op : Operation}
    (hm : w.payloadType m = some u) (hu : u.bare = t) (hp : p.registry.overrides = o) :
    ∃ q, Run.successResponse w m headers op p = .ok (op.setResponse 200
      { description := successText, shape := some (s.inContainer m.operation.responseContainer)
        headers }) q := by
  subst hu hp
  have found : Run.resolve w u p = .ok s p := resolveWithin_found h hs
  have shaped : Run.shapeIn w u m.operation.responseContainer p =
      .ok (s.inContainer m.operation.responseContainer) _ :=
    Run.bind_ok.2 ⟨s, p, found, Run.bind_ok.2 ⟨(), _, Run.addModelsOf_apply s p, rfl⟩⟩
  unfold Run.successResponse
  rw [hm]
  exact ⟨_, Run.bind_ok.2 ⟨_, _, shaped, rfl⟩⟩

theorem stands_of_found : w.Stands o t s where
  alone bound u p hu hp := by
    subst hu hp
    exact resolveWithin_found h hs
  part bound v u p hu hv hp := by
    subst hu hp
    change Run.resolveShape w (Run.resolveWithin w (bound + 1)) v p = _
    rw [Run.resolveShape_of_part hv, Run.bind_of_ok (resolveWithin_found h hs)]
    rfl
  field bound v fields name r p q hf hn hp new stale hr := by
    subst hp
    obtain ⟨_, schemas, found, model⟩ := Run.resolveWithin_new hr hf hn new stale
    refine ⟨schemas, found.imp fun f r hfr hft => ?_, model⟩
    obtain ⟨_, _, leads, hr'⟩ := hfr
    exact resolveWithin_found_only h hs hft leads.evolves.overrides hr'
  argument _ _ _ _ hp hr := resolveArguments_found h hs hp hr
  payload _ _ _ _ _ hm hu hp := successResponse_found h hs hm hu hp

end Found

/-- An override wins over everything else that is known of a type, wherever the type occurs, if the
type passes the tests that come first. The entry of a type that fails them has no effect, as if the
table did not have it. -/
theorem overrides_win {before after : List (TypeExpr × String)} {name : String}
    (apart : Overrides.Apart (before ++ (t, name) :: after))
    (ho : Overrides.ofNames (before ++ (t, name) :: after) [] = .ok o) :
    (w.overridable t = true → ∃ s, Primitive.find? name = some s ∧ w.Stands o t s) ∧
    (w.overridable t = false → ∃ o', Overrides.ofNames (before ++ after) [] = .ok o' ∧
      ∀ u, (∀ v marks, u.bare ≠ .annotated v marks) → w.shape o u = w.shape o' u) := by
  have made := (Overrides.ofNames_iff apart).1 ho
  obtain ⟨first, s, last, rfl, hs, hfirst, hlast⟩ := made.split
  constructor
  · intro h
    have mem : (t, s) ∈ first ++ (t, s) :: last := List.mem_append_right _ List.mem_cons_self
    exact ⟨s, hs, stands_of_found h (Overrides.find?_of_mem (made.apart apart) mem)⟩
  · intro h
    have apart' : Overrides.Apart (before ++ after) :=
      apart.sublist (List.Sublist.append_left (List.sublist_cons_self _ _) _)
    refine ⟨first ++ last, (Overrides.ofNames_iff apart').2 ?_, fun u hu => shape_of_idle h hu⟩
    exact List.rel_append hfirst hlast

/-- An amount of money, and an order with its total. -/
def orders : World where
  decls := [
    .cls {
      name := "Money"
      qualname := "Money"
      above := [.builtin .object]
      annotations := [("amount", .builtin .int)] },
    .cls {
      name := "Order"
      qualname := "Order"
      above := [.builtin .object]
      annotations := [("total", .declared 0)] }]
  names := [("Money", .declared 0), ("Order", .declared 1)]

theorem overrides_win_orders :
    Overrides.Apart [(TypeExpr.builtin .datetime, "long"), (.declared 0, "string")] ∧
      ∃ o, Overrides.ofNames [(.builtin .datetime, "long"), (.declared 0, "string")] [] = .ok o ∧
        orders.overridable (.declared 0) = true ∧
        Run.resolve orders (.applied (.builtin .list) [.declared 0]) { registry.overrides := o } =
          .ok (.arrayOf (.primitive .string none [])) { registry.overrides := o } := by
  have apart : Overrides.Apart [(TypeExpr.builtin .datetime, "long"), (.declared 0, "string")] := by
    unfold Overrides.Apart
    decide
  have tested : orders.overridable (.declared 0) = true := by decide
  refine ⟨apart, _, rfl, tested, ?_⟩
  have split : Overrides.Apart
      ([(.builtin .datetime, "long")] ++ ((.declared 0, "string") :: [])) := apart
  obtain ⟨s, hs, stands⟩ := (overrides_win (w := orders) split rfl).1 tested
  obtain rfl : Schema.primitive .string none [] = s := Option.some.inj hs
  exact stands.part 998 _ _ _ rfl rfl rfl

/-- A token with its element, a list of texts. -/
def nameToken : World where
  decls := [
    .cls {
      name := "Names"
      qualname := "Names"
      bases := [.applied (.builtin .typeToken) [.applied (.builtin .list) [.builtin .str]]]
      above := [.builtin .typeToken, .builtin .object] }]
  names := [("Names", .declared 0)]

/-- Entries for a token and for a union of types are there in vain. -/
theorem nameToken_not_overridden :
    ∃ o, Overrides.ofNames [(.declared 0, "string"),
        (.union [.builtin .int, .builtin .str], "string")] [] = .ok o ∧
      Primitive.find? "string" = some (.primitive .string none []) ∧
      (∃ p, Run.resolve nameToken (.declared 0) { registry.overrides := o } =
        .ok (.arrayOf (.primitive .string none [])) p) ∧
      ∃ p, Run.resolve nameToken (.union [.builtin .int, .builtin .str])
        { registry.overrides := o } = .ok .opaqueObject p :=
  ⟨_, rfl, rfl, ⟨_, rfl⟩, _, rfl⟩

end World

end ApiCompiler
