import ApiCompiler.Proofs.ClassFields
import ApiCompiler.Proofs.Rendering

/-!
# Where the types of fields come from

The annotations of a class are collected from those of its ancestors. For each name it is the
nearest class with an annotation of that name that decides, and its last one: `World.Shows`. The
fields of a class that is no validated model have the types that the class shows for their names,
and may be anything where it shows none.
-/

set_option autoImplicit false

namespace ApiCompiler.World

section Definitions

variable (w : World)

/-- What the annotations of a class can name. -/
def namesIn (c : ClassDecl) : Table TypeExpr :=
  Table.merge (c.nested.mapValues .declared) w.names

/-- The class itself gives a type to a name. -/
def Declares (c : ClassDecl) (name : String) (type : TypeExpr) : Prop :=
  ∃ a t, Table.lastAt c.annotations name = some a ∧
    w.resolveNames (w.namesIn c) a.asType = .ok t ∧ type = t.plain

/-- The type that a class gives to a name, or that the nearest class above does which has one. -/
def Shows (cls : TypeExpr) (name : String) (type : TypeExpr) : Prop :=
  ∃ c, (w.declaredLineage cls).find? (fun c => (Table.lastAt c.annotations name).isSome) = some c ∧
    w.Declares c name type

end Definitions

variable {w : World} {cls : TypeExpr} {name : String} {type : TypeExpr} {acc out : Table TypeExpr}

theorem addAnnotations_distinct {names annotations : Table TypeExpr} (h : acc.Distinct)
    (hout : w.addAnnotations names acc annotations = .ok out) : out.Distinct := by
  induction annotations generalizing acc with
  | nil =>
    obtain rfl := Except.ok.inj hout
    exact h
  | cons e rest ih =>
    obtain ⟨t, _, hout⟩ := except_bind_ok.1 hout
    exact ih (h.insert _ _) hout

/-- Adding annotations writes the last one of each name. -/
theorem addAnnotations_get? {names annotations : Table TypeExpr}
    (hout : w.addAnnotations names acc annotations = .ok out) (name : String) :
    match Table.lastAt annotations name with
    | none => out.get? name = acc.get? name
    | some a => ∃ t, w.resolveNames names a.asType = .ok t ∧ out.get? name = some t := by
  induction annotations generalizing acc with
  | nil =>
    obtain rfl := Except.ok.inj hout
    rfl
  | cons e rest ih =>
    obtain ⟨key, a⟩ := e
    obtain ⟨t, ht, hout⟩ := except_bind_ok.1 hout
    have later := ih hout
    rw [Table.lastAt_cons]
    cases hrest : Table.lastAt rest name with
    | some b =>
      rw [hrest] at later
      exact later
    | none =>
      rw [hrest, Table.get?_insert] at later
      by_cases hkey : key = name
      · rw [if_pos hkey] at later ⊢
        exact ⟨t, ht, later⟩
      · rw [if_neg hkey] at later ⊢
        exact later

theorem collectAnnotations_distinct {cs : List ClassDecl} (h : acc.Distinct)
    (hout : w.collectAnnotations acc cs = .ok out) : out.Distinct := by
  induction cs generalizing acc with
  | nil =>
    obtain rfl := Except.ok.inj hout
    exact h
  | cons c cs ih =>
    obtain ⟨acc', hacc', hout⟩ := except_bind_ok.1 hout
    exact ih (addAnnotations_distinct h hacc') hout

/-- In a list of classes the last one that has an annotation of a name decides. -/
theorem collectAnnotations_get? {cs : List ClassDecl}
    (hout : w.collectAnnotations acc cs = .ok out) (name : String) :
    match cs.reverse.find? (fun c => (Table.lastAt c.annotations name).isSome) with
    | none => out.get? name = acc.get? name
    | some c => ∃ a t, Table.lastAt c.annotations name = some a ∧
        w.resolveNames (w.namesIn c) a.asType = .ok t ∧ out.get? name = some t := by
  induction cs generalizing acc with
  | nil =>
    obtain rfl := Except.ok.inj hout
    rfl
  | cons c cs ih =>
    obtain ⟨acc', hacc', hout⟩ := except_bind_ok.1 hout
    have later := ih hout
    have here := addAnnotations_get? hacc' name
    rw [List.reverse_cons, List.find?_append]
    cases hrest : cs.reverse.find? fun c => (Table.lastAt c.annotations name).isSome with
    | some d =>
      rw [hrest] at later
      exact later
    | none =>
      rw [hrest] at later
      cases hlast : Table.lastAt c.annotations name with
      | none =>
        rw [hlast] at here
        have head : [c].find? (fun c => (Table.lastAt c.annotations name).isSome) = none := by
          simp [hlast]
        rw [head]
        exact later.trans here
      | some a =>
        rw [hlast] at here
        obtain ⟨t, ht, hget⟩ := here
        have head : [c].find? (fun c => (Table.lastAt c.annotations name).isSome) = some c := by
          simp [hlast]
        rw [head]
        exact ⟨a, t, hlast, ht, later.trans hget⟩

theorem annotationsOf_distinct {hints : Table TypeExpr} (h : w.annotationsOf cls = .ok hints) :
    hints.Distinct := by
  obtain ⟨out, hout, h⟩ := except_bind_ok.1 h
  obtain rfl := Except.ok.inj h
  exact (collectAnnotations_distinct Table.distinct_nil hout).mapValues _

/-- The annotations of a class are the types that it shows. -/
theorem annotationsOf_get? {hints : Table TypeExpr} (h : w.annotationsOf cls = .ok hints)
    (name : String) (type : TypeExpr) : hints.get? name = some type ↔ w.Shows cls name type := by
  obtain ⟨out, hout, h⟩ := except_bind_ok.1 h
  obtain rfl := Except.ok.inj h
  have found := collectAnnotations_get? hout name
  rw [List.reverse_reverse] at found
  rw [Table.get?_mapValues, Option.map_eq_some_iff]
  unfold Shows
  cases hfind : (w.declaredLineage cls).find? fun c =>
      (Table.lastAt c.annotations name).isSome with
  | none =>
    rw [hfind] at found
    rw [found]
    simp
  | some c =>
    rw [hfind] at found
    obtain ⟨a, t, ha, ht, hget⟩ := found
    rw [hget]
    constructor
    · rintro ⟨_, ht', rfl⟩
      obtain rfl := Option.some.inj ht'
      exact ⟨c, rfl, a, t, ha, ht, rfl⟩
    · rintro ⟨_, hc, a', t', ha', ht', rfl⟩
      obtain rfl := Option.some.inj hc
      obtain rfl := Option.some.inj (ha.symm.trans ha')
      obtain rfl := Except.ok.inj (ht.symm.trans ht')
      exact ⟨t, rfl, rfl⟩

/-- A field of a class that is no validated model has the annotated type of its name. -/
theorem annotatedFields_type {hints : Table TypeExpr} (distinct : hints.Distinct) {f : ModelField}
    (hf : f ∈ w.annotatedFields cls hints) : f.type = (hints.get? f.name).getD .any := by
  have listed {e : String × TypeExpr} (he : e ∈ hints) :
      e.2 = (hints.get? e.1).getD .any := by
    rw [distinct.get?_of_mem he]
    rfl
  unfold annotatedFields at hf
  split at hf
  · obtain ⟨d, _, hd⟩ := List.mem_filterMap.1 hf
    obtain ⟨_, hd⟩ := Option.ite_none_left_eq_some.1 hd
    obtain rfl := Option.some.inj hd
    rfl
  · split at hf
    · obtain ⟨e, he, rfl⟩ := List.mem_map.1 hf
      exact listed he
    · split at hf
      · obtain ⟨d, _, rfl⟩ := List.mem_map.1 hf
        rfl
      · obtain ⟨e, he, hd⟩ := List.mem_filterMap.1 hf
        obtain ⟨_, hd⟩ := Option.ite_none_left_eq_some.1 hd
        obtain rfl := Option.some.inj hd
        exact listed he

end ApiCompiler.World
