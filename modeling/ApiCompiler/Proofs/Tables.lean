import ApiCompiler.Operation
import ApiCompiler.Table

/-!
# Facts about tables

What is in a table after writes and merges: its keys are those that were there and those that were
written, and its entries are among the old and the new ones. Nothing is said here about the order of
keys.
-/

set_option autoImplicit false

namespace ApiCompiler

namespace Table

variable {α : Type}

theorem has_iff_mem_keys {t : Table α} {k : String} : t.has k ↔ k ∈ t.keys := by
  induction t with
  | nil => simp [has]
  | cons e t ih =>
    obtain ⟨k', v⟩ := e
    by_cases h : k' = k
    · simp [has, get?_cons, h]
    · simpa [has, get?_cons, h, Ne.symm h] using ih

theorem keys_zip_map {β : Type} (t : Table α) (g : α → β) :
    t.keys.zip (t.values.map g) = t.mapValues g := by
  induction t with
  | nil => rfl
  | cons e t ih => exact congrArg _ ih

theorem mem_of_get? {t : Table α} {k : String} {v : α} (h : t.get? k = some v) : (k, v) ∈ t := by
  induction t with
  | nil => simp at h
  | cons e t ih =>
    obtain ⟨k', u⟩ := e
    rw [get?_cons] at h
    by_cases hk : k' = k
    · rw [if_pos hk] at h
      cases h
      exact hk ▸ List.mem_cons_self
    · rw [if_neg hk] at h
      exact List.mem_cons_of_mem _ (ih h)

theorem has_insert {t : Table α} {k k' : String} {v : α} :
    (t.insert k v).has k' ↔ k = k' ∨ t.has k' := by
  unfold has
  rw [get?_insert]
  by_cases h : k = k' <;> simp [h]

theorem insert_ne_nil (t : Table α) (k : String) (v : α) : t.insert k v ≠ [] := by
  intro h
  have found : (t.insert k v).has k = true := has_insert.2 (.inl rfl)
  rw [h] at found
  cases found

theorem mem_insert {t : Table α} {k : String} {v : α} {e : String × α}
    (h : e ∈ t.insert k v) : e = (k, v) ∨ e ∈ t := by
  induction t with
  | nil => exact .inl (List.mem_singleton.1 h)
  | cons e' t ih =>
    obtain ⟨k', u⟩ := e'
    by_cases hk : k' = k
    · rw [insert, if_pos hk] at h
      rcases List.mem_cons.1 h with h | h
      · exact .inl (hk ▸ h)
      · exact .inr (List.mem_cons_of_mem _ h)
    · rw [insert, if_neg hk] at h
      rcases List.mem_cons.1 h with h | h
      · exact .inr (h ▸ List.mem_cons_self)
      · exact (ih h).imp_right (List.mem_cons_of_mem _)

/-- What holds of the values of a table still does when one is written that it holds of. -/
theorem forall_insert {P : α → Prop} {t : Table α} {k : String} {v : α} (ht : ∀ e ∈ t, P e.2)
    (hv : P v) : ∀ e ∈ t.insert k v, P e.2 := by
  intro e he
  rcases mem_insert he with rfl | he
  · exact hv
  · exact ht e he

theorem has_merge {t u : Table α} {k : String} : (t.merge u).has k ↔ t.has k ∨ u.has k := by
  unfold merge
  induction u generalizing t with
  | nil => simp [has]
  | cons e u ih =>
    obtain ⟨k', v⟩ := e
    rw [List.foldl_cons, ih, has_insert, has_iff_mem_keys (t := (k', v) :: u), keys_cons,
      List.mem_cons, ← has_iff_mem_keys, eq_comm (a := k), or_comm (a := k' = k), or_assoc]

theorem mem_merge {t u : Table α} {e : String × α} (h : e ∈ t.merge u) : e ∈ t ∨ e ∈ u := by
  unfold merge at h
  induction u generalizing t with
  | nil => exact .inl h
  | cons e' u ih =>
    rcases ih h with h | h
    · rcases mem_insert h with h | h
      · exact .inr (h ▸ List.mem_cons_self)
      · exact .inl h
    · exact .inr (List.mem_cons_of_mem _ h)

/-- What holds of the values of two tables holds of those of the merged one. -/
theorem forall_merge {P : α → Prop} {t u : Table α} (ht : ∀ e ∈ t, P e.2) (hu : ∀ e ∈ u, P e.2) :
    ∀ e ∈ t.merge u, P e.2 :=
  fun e he => (mem_merge he).elim (ht e) (hu e)

theorem mem_sorted {t : Table α} {e : String × α} : e ∈ t.sorted ↔ e ∈ t :=
  List.mem_mergeSort

end Table

theorem mem_distinctNames {names : List String} {n : String} :
    n ∈ distinctNames names ↔ n ∈ names := by
  have fold : ∀ (names acc : List String),
      n ∈ names.foldl (fun acc n => if n ∈ acc then acc else acc ++ [n]) acc ↔
        n ∈ acc ∨ n ∈ names := by
    intro names
    induction names with
    | nil => simp
    | cons m names ih =>
      intro acc
      rw [List.foldl_cons, ih, List.mem_cons]
      split
      · rename_i hm
        constructor
        · exact fun h => h.imp_right .inr
        · rintro (h | rfl | h)
          · exact .inl h
          · exact .inl hm
          · exact .inr h
      · simp [or_assoc]
  exact (fold names []).trans (by simp)

theorem mem_foldl_addName {names more : List String} {name : String} :
    name ∈ more.foldl addName names ↔ name ∈ names ∨ name ∈ more ∧ name ≠ "" := by
  induction more generalizing names with
  | nil => simp
  | cons n more ih =>
    rw [List.foldl_cons, ih, addName, List.mem_cons]
    split
    · rename_i h
      constructor
      · exact fun h => h.imp_right fun h => ⟨.inr h.1, h.2⟩
      · rintro (h' | ⟨rfl | h', hne⟩)
        · exact .inl h'
        · exact .inl (h.resolve_left hne)
        · exact .inr ⟨h', hne⟩
    · rename_i h
      rw [not_or] at h
      rw [List.mem_append, List.mem_singleton, or_assoc]
      refine or_congr_right ⟨?_, ?_⟩
      · rintro (rfl | ⟨h', hne⟩)
        · exact ⟨.inl rfl, h.1⟩
        · exact ⟨.inr h', hne⟩
      · rintro ⟨rfl | h', hne⟩
        · exact .inl rfl
        · exact .inr ⟨h', hne⟩

end ApiCompiler
