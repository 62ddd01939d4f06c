import Mathlib.Data.List.Nodup
import ApiCompiler.Proofs.Additions
import ApiCompiler.Proofs.Rendering

/-!
# Sameness of values and schemas

The comparison of values and schemas is symmetric and transitive where maps have distinct keys.
Numbers are compared by value, so that keys are distinct when no two of them are the same. Each
entry of a map has a same one in a map that is the same; since both have as many entries, and no two
of the first meet in the second, each entry of the second has one in the first as well.
-/

set_option autoImplicit false

namespace ApiCompiler

namespace Sameness

variable {α β : Type}

/-- Items that all have partners, no two of them the same one, leave no partner out of a list that
is not longer. -/
theorem exists_partner {R : α → β → Prop} {xs : List α} :
    ∀ {ys : List β}, (∀ x ∈ xs, ∃ y ∈ ys, R x y) →
      xs.Pairwise (fun x x' => ∀ y, R x y → ¬ R x' y) → ys.length ≤ xs.length →
      ∀ y ∈ ys, ∃ x ∈ xs, R x y := by
  induction xs with
  | nil =>
    intro ys _ _ short y hy
    rw [List.eq_nil_of_length_eq_zero (Nat.le_zero.1 short)] at hy
    cases hy
  | cons x xs ih =>
    intro ys partners apart short y hy
    obtain ⟨y', hy', hxy⟩ := partners x List.mem_cons_self
    obtain ⟨before, after, rfl⟩ := List.append_of_mem hy'
    obtain ⟨hx, apart⟩ := List.pairwise_cons.1 apart
    have others : ∀ x' ∈ xs, ∃ z ∈ before ++ after, R x' z := by
      intro x' hx'
      obtain ⟨z, hz, hxz⟩ := partners x' (List.mem_cons_of_mem _ hx')
      refine ⟨z, ?_, hxz⟩
      rcases List.mem_append.1 hz with hz | hz
      · exact List.mem_append_left _ hz
      · rcases List.mem_cons.1 hz with rfl | hz
        · exact absurd hxz (hx x' hx' z hxy)
        · exact List.mem_append_right _ hz
    have fewer : (before ++ after).length ≤ xs.length := by
      simp only [List.length_append, List.length_cons] at short ⊢
      omega
    by_cases here : y ∈ before ++ after
    · obtain ⟨x', hx', hxy'⟩ := ih others apart fewer y here
      exact ⟨x', List.mem_cons_of_mem _ hx', hxy'⟩
    · refine ⟨x, List.mem_cons_self, ?_⟩
      rcases List.mem_append.1 hy with hy | hy
      · exact absurd (List.mem_append_left _ hy) here
      · rcases List.mem_cons.1 hy with rfl | hy
        · exact hxy
        · exact absurd (List.mem_append_right _ hy) here

end Sameness

/-! ### Scalars -/

namespace Scalar

variable {a b c : Scalar}

theorem ratio?_pos {n : Int} {d : Nat} (h : a.ratio? = some (n, d)) : 0 < d := by
  have scaled (base m : Nat) (e : Int) (hb : 0 < base) : 0 < (Number.scaled base m e).2 := by
    unfold Number.scaled
    split
    · exact Nat.one_pos
    · exact Nat.pow_pos hb
  unfold ratio? at h
  split at h
  · cases h; exact Nat.one_pos
  · cases h; exact Nat.one_pos
  · rename_i m q
    cases h
    exact scaled 2 m q (by decide)
  · rename_i x
    cases h
    exact scaled 10 x.coefficient x.exponent (by decide)
  · cases h

theorem same_symm (h : a.same b = true) : b.same a = true := by
  unfold same at h ⊢
  split at h
  · rename_i hn hn'
    rw [hn, hn']
    simp only [beq_iff_eq] at h ⊢
    exact h.symm
  · rename_i hn hn'
    rw [hn, hn']
    simp only [Bool.and_eq_true, beq_iff_eq] at h ⊢
    obtain ⟨rfl, h⟩ := h
    exact ⟨rfl, h⟩
  · cases h

theorem same_trans (h : a.same b = true) (h' : b.same c = true) : a.same c = true := by
  unfold same at h h' ⊢
  cases ha : a.ratio? with
  | none =>
    cases hb : b.ratio? with
    | none =>
      rw [ha, hb] at h
      simp only [Bool.and_eq_true, beq_iff_eq] at h
      obtain ⟨rfl, _⟩ := h
      rw [ha] at h'
      exact h'
    | some x =>
      rw [ha, hb] at h
      cases h
  | some x =>
    cases hb : b.ratio? with
    | none => rw [ha, hb] at h; cases h
    | some y =>
      cases hc : c.ratio? with
      | none => rw [hb, hc] at h'; cases h'
      | some z =>
        rw [ha, hb] at h
        rw [hb, hc] at h'
        simp only [beq_iff_eq] at h h' ⊢
        have hy : (y.2 : Int) ≠ 0 := by have := ratio?_pos hb; omega
        refine Int.eq_of_mul_eq_mul_right hy ?_
        calc x.1 * z.2 * y.2 = x.1 * y.2 * z.2 := Int.mul_right_comm ..
          _ = y.1 * z.2 * x.2 := by rw [h, Int.mul_right_comm]
          _ = z.1 * x.2 * y.2 := by rw [h', Int.mul_right_comm]

end Scalar

/-! ### Values -/

namespace Value

mutual

/-- No map in a value has two keys that are the same. -/
def keyed : Value → Bool
  | .scalar _ => true
  | .list xs => keyedList xs
  | .map es => decide (es.Pairwise fun e f => e.1.same f.1 = false) && keyedEntries es

/-- The items of a list are keyed. -/
def keyedList : List Value → Bool
  | [] => true
  | x :: xs => keyed x && keyedList xs

/-- The values of a map are keyed. -/
def keyedEntries : List (Scalar × Value) → Bool
  | [] => true
  | (_, v) :: es => keyed v && keyedEntries es

end

variable {es fs : List (Scalar × Value)} {k l : Scalar} {v : Value}

/-- Keys that are the same are looked up alike. -/
theorem lookup_congr (h : k.same l = true) (es : List (Scalar × Value)) :
    lookup k es = lookup l es := by
  induction es with
  | nil => rfl
  | cons e es ih =>
    obtain ⟨k', v⟩ := e
    have keys : k'.same k = k'.same l :=
      Bool.eq_iff_iff.2 ⟨fun hk => Scalar.same_trans hk h,
        fun hl => Scalar.same_trans hl (Scalar.same_symm h)⟩
    rw [lookup, lookup, ih, keys]

theorem mem_of_lookup (h : lookup k es = some v) : ∃ l, (l, v) ∈ es ∧ l.same k = true := by
  induction es with
  | nil => cases h
  | cons e es ih =>
    obtain ⟨k', v'⟩ := e
    rw [lookup] at h
    split at h
    · rename_i hk
      cases h
      exact ⟨k', List.mem_cons_self, hk⟩
    · obtain ⟨l, hl, hsame⟩ := ih h
      exact ⟨l, List.mem_cons_of_mem _ hl, hsame⟩

theorem lookup_of_mem (hes : es.Pairwise fun e f => e.1.same f.1 = false) (h : (l, v) ∈ es)
    (hk : l.same k = true) : lookup k es = some v := by
  induction es with
  | nil => cases h
  | cons e es ih =>
    obtain ⟨k', v'⟩ := e
    obtain ⟨first, hes⟩ := List.pairwise_cons.1 hes
    rw [lookup]
    rcases List.mem_cons.1 h with h | h
    · cases h
      rw [if_pos hk]
    · rw [if_neg, ih hes h]
      intro hk'
      have meet := Scalar.same_trans hk' (Scalar.same_symm hk)
      rw [first _ h] at meet
      cases meet

theorem sameEntries_iff : sameEntries es fs = true ↔
    ∀ e ∈ es, ∃ w, lookup e.1 fs = some w ∧ e.2.same w = true := by
  induction es with
  | nil => simp [sameEntries]
  | cons e es ih =>
    obtain ⟨k, v⟩ := e
    rw [sameEntries, Bool.and_eq_true, ih, List.forall_mem_cons]
    refine and_congr_left fun _ => ?_
    cases lookup k fs <;> simp

mutual

theorem same_trans : ∀ u v w : Value, u.same v = true → v.same w = true → u.same w = true
  | .scalar a, .scalar b, .scalar c, h, h' => Scalar.same_trans h h'
  | .list xs, .list ys, .list zs, h, h' => sameList_trans xs ys zs h h'
  | .map es, .map fs, .map gs, h, h' => by
    simp only [same, Bool.and_eq_true, beq_iff_eq] at h h' ⊢
    exact ⟨h.1.trans h'.1, sameEntries_trans es fs gs h.2 h'.2⟩

theorem sameList_trans : ∀ xs ys zs : List Value,
    sameList xs ys = true → sameList ys zs = true → sameList xs zs = true
  | [], [], [], _, _ => rfl
  | x :: xs, y :: ys, z :: zs, h, h' => by
    simp only [sameList, Bool.and_eq_true] at h h' ⊢
    exact ⟨same_trans x y z h.1 h'.1, sameList_trans xs ys zs h.2 h'.2⟩

theorem sameEntries_trans : ∀ es fs gs : List (Scalar × Value),
    sameEntries es fs = true → sameEntries fs gs = true → sameEntries es gs = true
  | [], _, _, _, _ => rfl
  | (k, v) :: es, fs, gs, h, h' => by
    rw [sameEntries, Bool.and_eq_true] at h ⊢
    refine ⟨?_, sameEntries_trans es fs gs h.2 h'⟩
    cases hf : lookup k fs with
    | none => rw [hf] at h; cases h.1
    | some w =>
      rw [hf] at h
      obtain ⟨l, hl, hsame⟩ := mem_of_lookup hf
      obtain ⟨x, hx, hwx⟩ := sameEntries_iff.1 h' _ hl
      rw [← lookup_congr hsame, hx]
      exact same_trans v w x h.1 hwx

end

/-- The entries of a map with distinct keys are met by all entries of a map that is the same. -/
theorem sameEntries_symm (hes : es.Pairwise fun e f => e.1.same f.1 = false)
    (count : es.length = fs.length) (h : sameEntries es fs = true)
    (symm : ∀ e ∈ es, ∀ w, e.2.same w = true → w.same e.2 = true) :
    sameEntries fs es = true := by
  have partners : ∀ e ∈ es, ∃ f ∈ fs, f.1.same e.1 = true ∧ e.2.same f.2 = true := by
    intro e he
    obtain ⟨w, hw, hsame⟩ := sameEntries_iff.1 h e he
    obtain ⟨l, hl, hkey⟩ := mem_of_lookup hw
    exact ⟨(l, w), hl, hkey, hsame⟩
  have apart : es.Pairwise fun e e' => ∀ f : Scalar × Value,
      f.1.same e.1 = true ∧ e.2.same f.2 = true →
        ¬ (f.1.same e'.1 = true ∧ e'.2.same f.2 = true) := by
    refine hes.imp fun {e e'} hdiffer f hf hf' => ?_
    rw [Scalar.same_trans (Scalar.same_symm hf.1) hf'.1] at hdiffer
    cases hdiffer
  rw [sameEntries_iff]
  intro f hf
  obtain ⟨e, he, hkey, hsame⟩ := Sameness.exists_partner partners apart count.ge f hf
  exact ⟨e.2, lookup_of_mem hes he (Scalar.same_symm hkey), symm e he f.2 hsame⟩

mutual

theorem same_symm : ∀ u v : Value, u.keyed = true → u.same v = true → v.same u = true
  | .scalar _, .scalar _, _, h => Scalar.same_symm h
  | .list xs, .list ys, hk, h => sameList_symm xs ys hk h
  | .map es, .map fs, hk, h => by
    simp only [keyed, same, Bool.and_eq_true, beq_iff_eq, decide_eq_true_eq] at hk h ⊢
    exact ⟨h.1.symm, sameEntries_symm hk.1 h.1 h.2 (values_symm es hk.2)⟩

theorem sameList_symm : ∀ xs ys : List Value,
    keyedList xs = true → sameList xs ys = true → sameList ys xs = true
  | [], [], _, _ => rfl
  | x :: xs, y :: ys, hk, h => by
    simp only [keyedList, sameList, Bool.and_eq_true] at hk h ⊢
    exact ⟨same_symm x y hk.1 h.1, sameList_symm xs ys hk.2 h.2⟩

theorem values_symm : ∀ es : List (Scalar × Value), keyedEntries es = true →
    ∀ e ∈ es, ∀ w, e.2.same w = true → w.same e.2 = true
  | (k, v) :: es, hk, e, he, w, h => by
    rw [keyedEntries, Bool.and_eq_true] at hk
    rcases List.mem_cons.1 he with rfl | he
    · exact same_symm v w hk.1 h
    · exact values_symm es hk.2 e he w h

end

mutual

theorem eq_of_identical : ∀ u v : Value, u.identical v = true → u = v
  | .scalar _, .scalar _, h => congrArg _ (eq_of_beq h)
  | .list xs, .list ys, h => congrArg _ (eq_of_identicalList xs ys h)
  | .map es, .map fs, h => congrArg _ (eq_of_identicalEntries es fs h)

theorem eq_of_identicalList : ∀ xs ys : List Value, identicalList xs ys = true → xs = ys
  | [], [], _ => rfl
  | x :: xs, y :: ys, h => by
    rw [identicalList, Bool.and_eq_true] at h
    rw [eq_of_identical x y h.1, eq_of_identicalList xs ys h.2]

theorem eq_of_identicalEntries : ∀ es fs : List (Scalar × Value),
    identicalEntries es fs = true → es = fs
  | [], [], _ => rfl
  | (k, v) :: es, (l, w) :: fs, h => by
    simp only [identicalEntries, Bool.and_eq_true, beq_iff_eq] at h
    rw [h.1.1, eq_of_identical v w h.1.2, eq_of_identicalEntries es fs h.2]

end

end Value

/-! ### Schemas -/

namespace Schema

mutual

/-- No schema within has two properties of one name, and its values are keyed. -/
def keyed : Schema → Bool
  | ⟨_, _, items, values, _, properties, _, enum, _, default, _, _⟩ =>
    keyedOption items && keyedOption values &&
      (decide (Table.keys properties).Nodup && keyedTable properties) && Value.keyedList enum &&
      default.keyed

/-- An optional schema is keyed. -/
def keyedOption : Option Schema → Bool
  | none => true
  | some s => keyed s

/-- The schemas of a table are keyed. -/
def keyedTable : List (String × Schema) → Bool
  | [] => true
  | (_, s) :: rest => keyed s && keyedTable rest

end

variable {t u : Table Schema}

theorem sameTable_iff : sameTable t u = true ↔
    ∀ e ∈ t, ∃ s, Table.get? u e.1 = some s ∧ e.2.same s = true := by
  induction t with
  | nil => simp [sameTable]
  | cons e t ih =>
    obtain ⟨k, s⟩ := e
    rw [sameTable, Bool.and_eq_true, ih, List.forall_mem_cons]
    refine and_congr_left fun _ => ?_
    cases Table.get? u k <;> simp

mutual

theorem same_trans : ∀ r s t : Schema, r.same s = true → s.same t = true → r.same t = true
  | ⟨kind, format, items, values, ref, properties, required, enum, description, default, access,
      reference⟩, ⟨_, _, items', values', _, properties', _, enum', _, default', _, _⟩, t,
      h, h' => by
    simp only [same, Bool.and_eq_true, beq_iff_eq] at h h' ⊢
    obtain ⟨⟨⟨⟨⟨⟨⟨⟨⟨⟨⟨rfl, rfl⟩, hitems⟩, hvalues⟩, rfl⟩, hcount, htable⟩, rfl⟩, henum⟩, rfl⟩,
      hdefault⟩, rfl⟩, rfl⟩ := h
    obtain ⟨⟨⟨⟨⟨⟨⟨⟨⟨⟨⟨hkind, hformat⟩, hitems'⟩, hvalues'⟩, href⟩, hcount', htable'⟩, hrequired⟩,
      henum'⟩, hdescription⟩, hdefault'⟩, haccess⟩, hreference⟩ := h'
    exact ⟨⟨⟨⟨⟨⟨⟨⟨⟨⟨⟨hkind, hformat⟩, sameOption_trans items items' _ hitems hitems'⟩,
      sameOption_trans values values' _ hvalues hvalues'⟩, href⟩, hcount.trans hcount',
      sameTable_trans properties properties' _ htable htable'⟩, hrequired⟩,
      Value.sameList_trans _ _ _ henum henum'⟩, hdescription⟩,
      Value.same_trans _ _ _ hdefault hdefault'⟩, haccess⟩, hreference⟩

theorem sameOption_trans : ∀ r s t : Option Schema,
    sameOption r s = true → sameOption s t = true → sameOption r t = true
  | none, none, none, _, _ => rfl
  | some r, some s, some t, h, h' => same_trans r s t h h'

theorem sameTable_trans : ∀ t u v : List (String × Schema),
    sameTable t u = true → sameTable u v = true → sameTable t v = true
  | [], _, _, _, _ => rfl
  | (k, r) :: t, u, v, h, h' => by
    rw [sameTable, Bool.and_eq_true] at h ⊢
    refine ⟨?_, sameTable_trans t u v h.2 h'⟩
    cases hu : Table.get? u k with
    | none => rw [hu] at h; cases h.1
    | some s =>
      rw [hu] at h
      obtain ⟨s', hs', hsame⟩ := sameTable_iff.1 h' _ (Table.mem_of_get? hu)
      rw [hs']
      exact same_trans r s s' h.1 hsame

end

/-- The entries of a table with distinct keys are met by all entries of a table that is the same. -/
theorem sameTable_symm (ht : Table.Distinct t) (count : t.length = u.length)
    (h : sameTable t u = true) (symm : ∀ e ∈ t, ∀ s, e.2.same s = true → s.same e.2 = true) :
    sameTable u t = true := by
  have partners : ∀ e ∈ t, ∃ f ∈ u, f.1 = e.1 ∧ e.2.same f.2 = true := by
    intro e he
    obtain ⟨s, hs, hsame⟩ := sameTable_iff.1 h e he
    exact ⟨(e.1, s), Table.mem_of_get? hs, rfl, hsame⟩
  have apart : t.Pairwise fun e e' => ∀ f : String × Schema,
      f.1 = e.1 ∧ e.2.same f.2 = true → ¬ (f.1 = e'.1 ∧ e'.2.same f.2 = true) :=
    (List.pairwise_map.1 ht).imp fun hdiffer f hf hf' => hdiffer (hf.1.symm.trans hf'.1)
  rw [sameTable_iff]
  intro f hf
  obtain ⟨e, he, hkey, hsame⟩ := Sameness.exists_partner partners apart count.ge f hf
  exact ⟨e.2, hkey ▸ ht.get?_of_mem he, symm e he f.2 hsame⟩

mutual

theorem same_symm : ∀ s t : Schema, s.keyed = true → s.same t = true → t.same s = true
  | ⟨kind, format, items, values, ref, properties, required, enum, description, default, access,
      reference⟩, ⟨_, _, items', values', _, properties', _, enum', _, default', _, _⟩, hk, h => by
    simp only [keyed, same, Bool.and_eq_true, beq_iff_eq, decide_eq_true_eq] at hk h ⊢
    obtain ⟨⟨⟨⟨⟨⟨⟨⟨⟨⟨⟨rfl, rfl⟩, hitems⟩, hvalues⟩, rfl⟩, hcount, htable⟩, rfl⟩, henum⟩, rfl⟩,
      hdefault⟩, rfl⟩, rfl⟩ := h
    obtain ⟨⟨⟨⟨kitems, kvalues⟩, kkeys, ktable⟩, kenum⟩, kdefault⟩ := hk
    exact ⟨⟨⟨⟨⟨⟨⟨⟨⟨⟨⟨rfl, rfl⟩, sameOption_symm items items' kitems hitems⟩,
      sameOption_symm values values' kvalues hvalues⟩, rfl⟩, hcount.symm,
      sameTable_symm kkeys hcount htable (shapes_symm properties ktable)⟩, rfl⟩,
      Value.sameList_symm _ _ kenum henum⟩, rfl⟩, Value.same_symm _ _ kdefault hdefault⟩, rfl⟩, rfl⟩

theorem sameOption_symm : ∀ s t : Option Schema,
    keyedOption s = true → sameOption s t = true → sameOption t s = true
  | none, none, _, _ => rfl
  | some s, some t, hk, h => same_symm s t hk h

theorem shapes_symm : ∀ t : List (String × Schema), keyedTable t = true →
    ∀ e ∈ t, ∀ s, e.2.same s = true → s.same e.2 = true
  | (k, r) :: t, hk, e, he, s, h => by
    rw [keyedTable, Bool.and_eq_true] at hk
    rcases List.mem_cons.1 he with rfl | he
    · exact same_symm r s hk.1 h
    · exact shapes_symm t hk.2 e he s h

end

mutual

theorem eq_of_identical : ∀ s t : Schema, s.identical t = true → s = t
  | ⟨kind, format, items, values, ref, properties, required, enum, description, default, access,
      reference⟩, ⟨_, _, items', values', _, properties', _, enum', _, default', _, _⟩, h => by
    simp only [identical, Bool.and_eq_true, beq_iff_eq] at h
    obtain ⟨⟨⟨⟨⟨⟨⟨⟨⟨⟨⟨rfl, rfl⟩, hitems⟩, hvalues⟩, rfl⟩, htable⟩, rfl⟩, henum⟩, rfl⟩, hdefault⟩,
      rfl⟩, rfl⟩ := h
    rw [eq_of_identicalOption items items' hitems, eq_of_identicalOption values values' hvalues,
      eq_of_identicalTable properties properties' htable,
      Value.eq_of_identicalList enum enum' henum, Value.eq_of_identical default default' hdefault]

theorem eq_of_identicalOption : ∀ s t : Option Schema, identicalOption s t = true → s = t
  | none, none, _ => rfl
  | some s, some t, h => congrArg _ (eq_of_identical s t h)

theorem eq_of_identicalTable : ∀ t u : List (String × Schema), identicalTable t u = true → t = u
  | [], [], _ => rfl
  | (k, s) :: t, (l, s') :: u, h => by
    simp only [identicalTable, Bool.and_eq_true, beq_iff_eq] at h
    rw [h.1.1, eq_of_identical s s' h.1.2, eq_of_identicalTable t u h.2]

end

/-- The comparison of the document: schemas that nothing tells apart, or that are the same. -/
def Alike (s t : Schema) : Prop := s = t ∨ s.same t = true

variable {r s s' : Schema}

theorem alike_iff : (s.identical s' || s.same s') = true ↔ s.Alike s' := by
  rw [Bool.or_eq_true]
  refine or_congr_left ⟨eq_of_identical s s', ?_⟩
  rintro rfl
  exact identical_refl s

theorem Alike.refl (s : Schema) : s.Alike s := .inl rfl

theorem Alike.symm (h : s.Alike s') (hs : s.keyed = true) : s'.Alike s := by
  rcases h with rfl | h
  · exact .refl s
  · exact .inr (same_symm s s' hs h)

theorem Alike.trans (h : r.Alike s) (h' : s.Alike s') : r.Alike s' := by
  rcases h with rfl | h
  · exact h'
  · rcases h' with rfl | h'
    · exact .inr h
    · exact .inr (same_trans r s s' h h')

end Schema

end ApiCompiler
