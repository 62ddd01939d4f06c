import ApiCompiler.Proofs.Registry

/-!
# The models that a schema needs

`Registry.modelsFor` is a search. It takes up pending names one after the other; the references of a
model that it meets become pending in turn, so that a name may come up again any number of times
where models refer to each other. `Search.next` is one round of it. A round lowers `Search.size`,
whatever the registry is like, and preserves `Search.Sound`; hence the search ends, after a number
of rounds that is bounded by the references there are, with the models that `Registry.Reaches` tells
of.
-/

set_option autoImplicit false

namespace ApiCompiler

namespace Registry

/-- The names that references lead to from the given ones, through models of the registry. -/
inductive Reaches (models : Table Schema) (start : List String) : String → Prop where
  | start {name : String} (h : name ∈ start) : Reaches models start name
  | through {name next : String} {m : Schema} (h : Reaches models start name)
      (found : models.get? name = some m) (refers : next ∈ m.references) :
      Reaches models start next

/-- Where a search stands: the names that are still to be taken up, and the models met so far. -/
structure Search where
  pending : List String
  met : Table Schema

namespace Search

variable {models out : Table Schema} {start : List String} {s s' : Search} {rounds : Nat}

/-- One round of a search. A name that has been met, or that no model has, is dropped. -/
def next (models : Table Schema) : Search → Option Search
  | ⟨[], _⟩ => none
  | ⟨name :: pending, met⟩ =>
    if met.has name then some ⟨pending, met⟩
    else
      match models.get? name with
      | none => some ⟨pending, met⟩
      | some m => some ⟨pending ++ m.references, met ++ [(name, m)]⟩

/-- What is left to do at most: the pending names, and the models not yet met with their
references. -/
def size (models : Table Schema) (s : Search) : Nat := unseen models s.met + s.pending.length

/-- A search comes to its end after a number of rounds, with the models that it has met. -/
inductive Ends (models : Table Schema) : Nat → Search → Table Schema → Prop where
  | done {met : Table Schema} : Ends models 0 ⟨[], met⟩ met
  | round {rounds : Nat} {s s' : Search} {out : Table Schema} (h : s.next models = some s')
      (rest : Ends models rounds s' out) : Ends models (rounds + 1) s out

/-- A round takes up the first pending name, and drops it or meets its model. -/
theorem next_cases (h : s.next models = some s') :
    ∃ name pending met, s = ⟨name :: pending, met⟩ ∧
      (s' = ⟨pending, met⟩ ∨
        ∃ m, met.has name = false ∧ models.get? name = some m ∧
          s' = ⟨pending ++ m.references, met ++ [(name, m)]⟩) := by
  obtain ⟨_ | ⟨name, pending⟩, met⟩ := s
  · cases h
  · refine ⟨name, pending, met, rfl, ?_⟩
    cases seen : met.has name with
    | true =>
      rw [next, if_pos seen] at h
      exact .inl (Option.some.inj h).symm
    | false =>
      rw [next, if_neg (by rw [seen]; exact Bool.false_ne_true)] at h
      cases found : models.get? name with
      | none =>
        rw [found] at h
        exact .inl (Option.some.inj h).symm
      | some m =>
        rw [found] at h
        exact .inr ⟨m, rfl, rfl, (Option.some.inj h).symm⟩

theorem size_next (h : s.next models = some s') : s'.size models < s.size models := by
  obtain ⟨name, pending, met, rfl, rfl | ⟨m, new, found, rfl⟩⟩ := next_cases h
  · simp only [size, List.length_cons]
    omega
  · have fewer := unseen_append_lt found new
    simp only [size, List.length_append, List.length_cons]
    omega

theorem Ends.round_le (h : s.next models = some s')
    (rest : ∃ rounds ≤ s'.size models, Ends models rounds s' out) :
    ∃ rounds ≤ s.size models, Ends models rounds s out :=
  let ⟨rounds, bound, ends⟩ := rest
  ⟨rounds + 1, Nat.succ_le_of_lt (Nat.lt_of_le_of_lt bound (size_next h)), .round h ends⟩

/-- A search ends with what `reachable` gives, since every round leaves less to do. -/
theorem ends_reachable (models : Table Schema) (pending : List String) (met : Table Schema) :
    ∃ rounds ≤ size models ⟨pending, met⟩,
      Ends models rounds ⟨pending, met⟩ (reachable models pending met) := by
  fun_induction reachable models pending met with
  | case1 met => exact ⟨0, Nat.zero_le _, .done⟩
  | case2 met name pending seen ih => exact Ends.round_le (if_pos seen) ih
  | case3 met name pending new absent ih =>
    exact Ends.round_le (by rw [next, if_neg new, absent]) ih
  | case4 met name pending new m found ih =>
    exact Ends.round_le (by rw [next, if_neg new, found]) ih

/-- What holds while a search goes on: no name is met twice, and every name that has been met or is
pending is one that references lead to. -/
structure Sound (models : Table Schema) (start : List String) (s : Search) : Prop where
  distinct : s.met.Distinct
  met : ∀ e ∈ s.met, Reaches models start e.1
  pending : ∀ name ∈ s.pending, Reaches models start name

theorem Sound.next (hs : Sound models start s) (h : s.next models = some s') :
    Sound models start s' := by
  obtain ⟨name, pending, met, rfl, rfl | ⟨m, new, found, rfl⟩⟩ := next_cases h
  · exact ⟨hs.distinct, hs.met, fun n hn => hs.pending n (List.mem_cons_of_mem _ hn)⟩
  · have here := hs.pending name List.mem_cons_self
    refine ⟨?_, fun e he => ?_, fun n hn => ?_⟩
    · have apart : name ∉ met.keys := fun hn => by
        rw [Table.has_iff_mem_keys.2 hn] at new
        cases new
      simp only [Table.Distinct, Table.keys, List.map_append, List.map_cons, List.map_nil]
      exact List.nodup_append.2 ⟨hs.distinct, by simp, fun k hk n hn h =>
        apart (List.mem_singleton.1 hn ▸ h ▸ hk)⟩
    · rcases List.mem_append.1 he with he | he
      · exact hs.met e he
      · rw [List.mem_singleton.1 he]
        exact here
    · rcases List.mem_append.1 hn with hn | hn
      · exact hs.pending n (List.mem_cons_of_mem _ hn)
      · exact here.through found hn

theorem Ends.sound (h : Ends models rounds s out) (hs : Sound models start s) :
    Sound models start ⟨[], out⟩ := by
  induction h with
  | done => exact hs
  | round step _ ih => exact ih (hs.next step)

end Search

section Reachable

variable {models : Table Schema} {start : List String}

theorem sound_reachable : Search.Sound models start ⟨[], reachable models start []⟩ :=
  let ⟨_, _, ends⟩ := Search.ends_reachable models start []
  ends.sound ⟨Table.distinct_nil, fun _ h => (List.not_mem_nil h).elim, fun _ => .start⟩

theorem registered_of_mem {e : String × Schema} (h : e ∈ reachable models start []) :
    models.get? e.1 = some e.2 :=
  (get?_of_mem_reachable h).resolve_left List.not_mem_nil

theorem mem_of_has_reachable {name : String} {m : Schema}
    (h : (reachable models start []).has name) (found : models.get? name = some m) :
    (name, m) ∈ reachable models start [] := by
  obtain ⟨m', hm⟩ := Option.isSome_iff_exists.1 h
  have member := Table.mem_of_get? hm
  obtain rfl : m' = m := Option.some.inj ((registered_of_mem member).symm.trans found)
  exact member

/-- A reference inside of a model that is found leads to one that is found, if there is one. -/
theorem has_of_references {e : String × Schema} (he : e ∈ reachable models start []) {name : String}
    (hn : name ∈ e.2.references) (h : models.has name) : (reachable models start []).has name :=
  reachable_closed (fun _ h => (List.not_mem_nil h).elim) e he name hn h

/-- Every model that references lead to is found. -/
theorem Reaches.mem {name : String} {m : Schema} (h : Reaches models start name)
    (found : models.get? name = some m) : (name, m) ∈ reachable models start [] := by
  induction h generalizing m with
  | start h =>
    have registered : models.has _ := Option.isSome_of_eq_some found
    exact mem_of_has_reachable (has_reachable (.inr ⟨h, registered⟩)) found
  | through _ holder refers ih =>
    have registered : models.has _ := Option.isSome_of_eq_some found
    exact mem_of_has_reachable (has_of_references (ih holder) refers registered) found

end Reachable

theorem unseen_nil (models : Table Schema) :
    unseen models [] = (models.flatMap fun e => e.2.references).length + models.length := by
  induction models with
  | nil => rfl
  | cons e models ih =>
    rw [List.flatMap_cons, List.length_append, List.length_cons]
    show unseen models [] + e.2.references.length + 1 = _
    omega

/-- The search for the models of a schema ends, within as many rounds as the schema and the models
have references and there are models; it gives the models of the registry that references lead to
from the schema, each once and under its own name, and a reference inside of them is one of them
unless the registry has no model of its name. -/
theorem modelsFor_exact (r : Registry) (s : Schema) :
    (∃ rounds ≤ (r.models.flatMap fun e => e.2.references).length + r.models.length +
        s.references.length,
      Search.Ends r.models rounds ⟨s.references, []⟩ (r.modelsFor s)) ∧
    (r.modelsFor s).Distinct ∧
    (∀ name m, (name, m) ∈ r.modelsFor s ↔
      r.models.get? name = some m ∧ Reaches r.models s.references name) ∧
    ∀ e ∈ r.modelsFor s, ∀ name ∈ e.2.references,
      (r.modelsFor s).has name ∨ r.models.has name = false := by
  have sound : Search.Sound r.models s.references ⟨[], r.modelsFor s⟩ := sound_reachable
  refine ⟨?_, sound.distinct, fun name m => ⟨fun h => ⟨?_, sound.met _ h⟩, ?_⟩, ?_⟩
  · have ends := Search.ends_reachable r.models s.references []
    rwa [Search.size, unseen_nil] at ends
  · exact registered_of_mem h
  · rintro ⟨found, reached⟩
    exact reached.mem found
  · intro e he name hn
    cases registered : r.models.has name with
    | false => exact .inr rfl
    | true => exact .inl (has_of_references he hn registered)

end Registry

end ApiCompiler
