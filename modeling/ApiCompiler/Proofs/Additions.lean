import ApiCompiler.Proofs.Definitions

/-!
# Adding models that agree

A model that is added under a new name comes last, and one that stands there already changes
nothing. `Table.Gains` says this of a whole list of models: what was there keeps its place, and the
entries are those of before and those that have been added. It holds wherever every name means one
model, whether the model is in the document yet or not.
-/

set_option autoImplicit false

namespace ApiCompiler

mutual

theorem Value.identical_refl : ∀ v : Value, v.identical v = true
  | .scalar a => beq_self_eq_true a
  | .list xs => Value.identicalList_refl xs
  | .map es => Value.identicalEntries_refl es

theorem Value.identicalList_refl : ∀ xs : List Value, Value.identicalList xs xs = true
  | [] => rfl
  | x :: xs => Bool.and_eq_true_iff.2 ⟨Value.identical_refl x, Value.identicalList_refl xs⟩

theorem Value.identicalEntries_refl :
    ∀ es : List (Scalar × Value), Value.identicalEntries es es = true
  | [] => rfl
  | (k, v) :: es => by
    rw [Value.identicalEntries, beq_self_eq_true, Value.identical_refl v,
      Value.identicalEntries_refl es]
    rfl

end

mutual

theorem Schema.identical_refl : ∀ s : Schema, s.identical s = true
  | ⟨_, _, items, values, _, properties, _, enum, _, default, _, _⟩ => by
    simp only [Schema.identical, beq_self_eq_true, Schema.identicalOption_refl items,
      Schema.identicalOption_refl values, Schema.identicalTable_refl properties,
      Value.identicalList_refl enum, Value.identical_refl default, Bool.and_self]

theorem Schema.identicalOption_refl : ∀ s : Option Schema, Schema.identicalOption s s = true
  | none => rfl
  | some s => Schema.identical_refl s

theorem Schema.identicalTable_refl :
    ∀ t : List (String × Schema), Schema.identicalTable t t = true
  | [] => rfl
  | (k, s) :: rest => by
    rw [Schema.identicalTable, beq_self_eq_true, Schema.identical_refl s,
      Schema.identicalTable_refl rest]
    rfl

end

namespace Table

variable {α : Type} {t u v : Table α} {more others : List (String × α)}

theorem get?_append (t u : Table α) (key : String) :
    get? (t ++ u) key = (t.get? key).or (u.get? key) := by
  induction t with
  | nil => rfl
  | cons e t ih =>
    obtain ⟨k, a⟩ := e
    rw [List.cons_append, get?_cons, get?_cons, ih]
    split <;> rfl

theorem insert_of_get?_none {key : String} (a : α) (h : t.get? key = none) :
    t.insert key a = t ++ [(key, a)] := by
  induction t with
  | nil => rfl
  | cons e t ih =>
    obtain ⟨k, b⟩ := e
    rw [get?_cons] at h
    split at h
    · cases h
    · rename_i hk
      rw [insert, if_neg hk, ih h, List.cons_append]

theorem insert_of_get?_some {key : String} {a : α} (h : t.get? key = some a) :
    t.insert key a = t := by
  induction t with
  | nil => cases h
  | cons e t ih =>
    obtain ⟨k, b⟩ := e
    rw [get?_cons] at h
    split at h
    · rename_i hk
      rw [insert, if_pos hk, Option.some.inj h]
    · rename_i hk
      rw [insert, if_neg hk, ih h]

/-- What the first table says, the second one says as well. -/
def Within (t u : Table α) : Prop := ∀ ⦃key a⦄, t.get? key = some a → u.get? key = some a

theorem Within.refl (t : Table α) : t.Within t := fun _ _ h => h

theorem Within.trans (h : t.Within u) (h' : u.Within v) : t.Within v := fun _ _ ha => h' (h ha)

theorem Within.has {key : String} (h : t.Within u) (ht : t.has key) : u.has key := by
  obtain ⟨a, ha⟩ := Option.isSome_iff_exists.1 ht
  exact Option.isSome_iff_exists.2 ⟨a, h ha⟩

theorem within_of_prefix (h : t <+: u) : t.Within u := by
  obtain ⟨w, rfl⟩ := h
  intro key a ha
  rw [get?_append, ha, Option.some_or]

/-- A table with distinct keys that comes first in another one, and says no less, is that one. -/
theorem eq_of_prefix (h : t <+: u) (hu : u.Distinct) (hw : u.Within t) : t = u := by
  obtain ⟨more, rfl⟩ := h
  cases more with
  | nil => rw [List.append_nil]
  | cons e more =>
    have new : e.1 ∉ t.keys := by
      unfold Distinct keys at hu
      rw [List.map_append, List.nodup_append] at hu
      exact fun he => hu.2.2 _ he _ List.mem_cons_self rfl
    have found : (t ++ e :: more).has e.1 := by
      rw [has_iff_mem_keys, keys, List.map_append]
      exact List.mem_append_right _ List.mem_cons_self
    exact absurd (has_iff_mem_keys.1 (hw.has found)) new

/-- The second table has come from the first by adding entries at the end. -/
structure Gains (t u : Table α) (more : List (String × α)) : Prop where
  front : t <+: u
  entries : ∀ key a, u.get? key = some a ↔ t.get? key = some a ∨ (key, a) ∈ more
  distinct : t.Distinct → u.Distinct

namespace Gains

theorem refl (t : Table α) : t.Gains t [] :=
  ⟨List.prefix_rfl, fun _ _ => by simp, id⟩

theorem trans (h : t.Gains u more) (h' : u.Gains v others) : t.Gains v (more ++ others) where
  front := h.front.trans h'.front
  entries key a := by rw [h'.entries, h.entries, List.mem_append, or_assoc]
  distinct ht := h'.distinct (h.distinct ht)

/-- What holds of a table and of the added entries holds of what has come from them. -/
theorem within (h : t.Gains u more) (ht : t.Within v)
    (hm : ∀ e ∈ more, v.get? e.1 = some e.2) : u.Within v := fun key a ha =>
  ((h.entries key a).1 ha).elim (fun h => ht h) fun h => hm (key, a) h

end Gains

end Table

namespace Document

/-- A model under its own name is not changed by being added again. -/
theorem combine_self (name : String) (model : Schema) :
    (combine name (some model) model).1 = model := by
  unfold combine
  simp only
  rw [if_pos]
  rw [Schema.identical_refl, Bool.true_or]

variable {d : Document} {P : String → Schema → Prop}
  (unique : ∀ ⦃name s s'⦄, P name s → P name s' → s = s')
include unique

/-- Adding the model that a name means to a document in which names mean what they should. -/
theorem addModel_gains {name : String} {model : Schema}
    (hd : ∀ ⦃n s⦄, d.definitions.get? n = some s → P n s) (hm : P name model) :
    d.definitions.Gains (d.addModel name model).1.definitions [(name, model)] := by
  have entries : ∀ n s, (d.addModel name model).1.definitions.get? n = some s ↔
      d.definitions.get? n = some s ∨ (n, s) ∈ [(name, model)] := by
    intro n s
    rw [addModel_document, List.mem_singleton, Prod.mk.injEq, Table.get?_insert]
    cases hget : d.definitions.get? name with
    | none =>
      by_cases hn : name = n
      · subst hn
        simp [hget, combine, eq_comm]
      · simp [hn, Ne.symm hn]
    | some old =>
      obtain rfl := unique (hd hget) hm
      rw [combine_self]
      by_cases hn : name = n
      · subst hn
        simp [hget, eq_comm]
      · simp [hn, Ne.symm hn]
  refine ⟨?_, entries, fun h => by rw [addModel_document]; exact h.insert _ _⟩
  rw [addModel_document]
  cases hget : d.definitions.get? name with
  | none =>
    simp only
    rw [Table.insert_of_get?_none _ hget]
    exact List.prefix_append _ _
  | some old =>
    obtain rfl := unique (hd hget) hm
    have same : d.definitions.insert name (combine name (some old) old).1 = d.definitions := by
      rw [combine_self, Table.insert_of_get?_some hget]
    exact same.symm ▸ List.prefix_rfl

theorem addModels_gains {models : Table Schema}
    (hd : ∀ ⦃n s⦄, d.definitions.get? n = some s → P n s) (hm : ∀ e ∈ models, P e.1 e.2) :
    d.definitions.Gains (d.addModels models).1.definitions models := by
  induction models generalizing d with
  | nil => exact .refl _
  | cons e models ih =>
    have first := addModel_gains unique hd (hm e List.mem_cons_self)
    rw [addModels_cons]
    refine first.trans (ih (fun n s hs => ?_) fun e' he' => hm e' (List.mem_cons_of_mem _ he'))
    rcases (first.entries n s).1 hs with hs | hs
    · exact hd hs
    · obtain ⟨rfl, rfl⟩ := Prod.mk.inj (List.mem_singleton.1 hs)
      exact hm e List.mem_cons_self

end Document

end ApiCompiler
