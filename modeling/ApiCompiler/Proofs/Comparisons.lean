import ApiCompiler.Proofs.Sameness

/-!
# Comparing values and schemas

`Value.agrees` and `Schema.agrees` compare as `Value.same` and `Schema.same` do, but with any
comparison of scalars in place of the one by value, and without the declared types that named models
come from. What is asked of a comparison is that it tells texts apart, and null from everything
else. Records with distinct keys agree when they agree key by key.
-/

set_option autoImplicit false

namespace ApiCompiler

/-! ### Values -/

/-- A comparison of scalars that tells texts apart, and null from everything else. -/
structure Scalar.Comparison (eq : Scalar → Scalar → Bool) : Prop where
  texts : ∀ a b : String, eq (.text a) (.text b) = true ↔ a = b
  null_left : ∀ s : Scalar, eq .null s = true ↔ s = .null
  null_right : ∀ s : Scalar, eq s .null = true ↔ s = .null

theorem Scalar.comparison_beq : Scalar.Comparison (· == ·) where
  texts a b := by simp
  null_left s := by rw [beq_iff_eq]; exact ⟨Eq.symm, Eq.symm⟩
  null_right s := by rw [beq_iff_eq]

theorem Scalar.same_null_iff {s : Scalar} : s.same .null = true ↔ s = .null := by
  unfold same
  constructor
  · cases s.ratio? with
    | none => exact fun h => beq_iff_eq.1 (Bool.and_eq_true_iff.1 h).1
    | some _ => exact nofun
  · rintro rfl
    rfl

theorem Scalar.comparison_same : Scalar.Comparison Scalar.same where
  texts a b := by simp [same, ratio?]
  null_left _ := ⟨fun h => same_null_iff.1 (same_symm h), fun h => same_symm (same_null_iff.2 h)⟩
  null_right _ := same_null_iff

namespace Value

section Agreement

variable (eq : Scalar → Scalar → Bool)

/-- The value at a key, as keys compare. -/
def lookupBy (key : Scalar) : List (Scalar × Value) → Option Value
  | [] => none
  | (k, v) :: entries => if eq k key then some v else lookupBy key entries

mutual

/-- Agreement of values, as scalars compare; the order of map entries does not matter. -/
def agrees : Value → Value → Bool
  | .scalar a, .scalar b => eq a b
  | .list xs, .list ys => agreesList xs ys
  | .map es, .map fs => es.length == fs.length && agreesEntries es fs
  | _, _ => false

/-- Agreement of lists, item by item. -/
def agreesList : List Value → List Value → Bool
  | [], [] => true
  | x :: xs, y :: ys => agrees x y && agreesList xs ys
  | _, _ => false

/-- Every entry of the first list has one in the second that agrees with it. -/
def agreesEntries : List (Scalar × Value) → List (Scalar × Value) → Bool
  | [], _ => true
  | (k, v) :: es, fs =>
    (match lookupBy eq k fs with
      | some w => agrees v w
      | none => false) && agreesEntries es fs

end

/-- Agreement of optional values. -/
def agreesAt : Option Value → Option Value → Bool
  | none, none => true
  | some v, some w => agrees eq v w
  | _, _ => false

end Agreement

theorem lookupBy_same (key : Scalar) (es : List (Scalar × Value)) :
    lookupBy Scalar.same key es = lookup key es := by
  induction es with
  | nil => rfl
  | cons e es ih =>
    obtain ⟨k, v⟩ := e
    rw [lookupBy, lookup, ih]

mutual

theorem agrees_same : ∀ v w : Value, v.agrees Scalar.same w = v.same w
  | .scalar _, .scalar _ | .scalar _, .list _ | .scalar _, .map _ | .list _, .scalar _
  | .list _, .map _ | .map _, .scalar _ | .map _, .list _ => rfl
  | .list xs, .list ys => agreesList_same xs ys
  | .map es, .map fs => by rw [agrees, same, agreesEntries_same es fs]

theorem agreesList_same : ∀ xs ys : List Value,
    agreesList Scalar.same xs ys = sameList xs ys
  | [], [] | [], _ :: _ | _ :: _, [] => rfl
  | x :: xs, y :: ys => by rw [agreesList, sameList, agrees_same x y, agreesList_same xs ys]

theorem agreesEntries_same : ∀ es fs : List (Scalar × Value),
    agreesEntries Scalar.same es fs = sameEntries es fs
  | [], _ => rfl
  | (k, v) :: es, fs => by
    rw [agreesEntries, sameEntries, lookupBy_same, agreesEntries_same es fs]
    cases lookup k fs with
    | none => rfl
    | some w => exact congrArg (· && _) (agrees_same v w)

end

variable {eq : Scalar → Scalar → Bool} {t u : Table Value}

theorem agreesList_texts (h : Scalar.Comparison eq) {xs ys : List String} :
    agreesList eq (xs.map .text) (ys.map .text) = true ↔ xs = ys := by
  induction xs generalizing ys with
  | nil => cases ys <;> simp [agreesList]
  | cons x xs ih =>
    cases ys with
    | nil => simp [agreesList]
    | cons y ys => simp [agreesList, agrees, h.texts, ih]

theorem lookupBy_record (h : Scalar.Comparison eq) (key : String) (t : Table Value) :
    lookupBy eq (.text key) (t.map fun (k, v) => (.text k, v)) = t.get? key := by
  induction t with
  | nil => rfl
  | cons e t ih =>
    obtain ⟨k, v⟩ := e
    rw [List.map_cons, lookupBy, Table.get?_cons, ih]
    simp only [h.texts]

theorem agrees_record_iff (h : Scalar.Comparison eq) :
    (record t).agrees eq (record u) = true ↔
      t.length = u.length ∧ ∀ e ∈ t, ∃ w, u.get? e.1 = some w ∧ e.2.agrees eq w = true := by
  have entries : agreesEntries eq (t.map fun (k, v) => (.text k, v))
      (u.map fun (k, v) => (.text k, v)) = true ↔
      ∀ e ∈ t, ∃ w, u.get? e.1 = some w ∧ e.2.agrees eq w = true := by
    induction t with
    | nil => simp [agreesEntries]
    | cons e t ih =>
      rw [List.map_cons, agreesEntries, lookupBy_record h, Bool.and_eq_true, ih,
        List.forall_mem_cons]
      refine and_congr_left fun _ => ?_
      cases u.get? e.1 <;> simp
  rw [record, record, agrees, Bool.and_eq_true, entries, List.length_map, List.length_map,
    beq_iff_eq]

/-- Records with distinct keys agree when they agree key by key. -/
theorem agrees_record_iff_get? (h : Scalar.Comparison eq) (ht : t.Distinct) (hu : u.Distinct) :
    (record t).agrees eq (record u) = true ↔
      ∀ key, agreesAt eq (t.get? key) (u.get? key) = true := by
  rw [agrees_record_iff h]
  constructor
  · rintro ⟨count, partners⟩ key
    cases hv : t.get? key with
    | some v =>
      obtain ⟨w, hw, agree⟩ := partners _ (Table.mem_of_get? hv)
      rw [hw]
      exact agree
    | none =>
      cases hw : u.get? key with
      | none => rfl
      | some w =>
        -- An entry of the second without one in the first would make the second longer.
        have meets : ∀ e ∈ t, ∃ f ∈ u, e.1 = f.1 := fun e he =>
          let ⟨w, hw, _⟩ := partners e he
          ⟨(e.1, w), Table.mem_of_get? hw, rfl⟩
        have apart : t.Pairwise fun e e' => ∀ f : String × Value, e.1 = f.1 → ¬ e'.1 = f.1 :=
          (List.pairwise_map.1 ht).imp fun differ f hf hf' => differ (hf.trans hf'.symm)
        obtain ⟨e, he, hkey⟩ :=
          Sameness.exists_partner meets apart count.ge _ (Table.mem_of_get? hw)
        have found := ht.get?_of_mem he
        rw [hkey, hv] at found
        cases found
  · intro agree
    have here : ∀ key, t.has key = u.has key := fun key => by
      have agree := agree key
      unfold Table.has
      cases hv : t.get? key <;> cases hw : u.get? key <;> rw [hv, hw] at agree <;>
        first | rfl | cases agree
    refine ⟨?_, fun e he => ?_⟩
    · have keys : t.keys.Perm u.keys := (List.perm_ext_iff_of_nodup ht hu).2 fun key => by
        rw [← Table.has_iff_mem_keys, ← Table.has_iff_mem_keys, here]
      simpa [Table.keys] using keys.length_eq
    · have agree := agree e.1
      rw [ht.get?_of_mem he] at agree
      cases hw : u.get? e.1 with
      | none => rw [hw] at agree; cases agree
      | some w => exact ⟨w, rfl, by rwa [hw] at agree⟩

end Value

/-! ### Schemas -/

namespace Schema

section Agreement

variable (eq : Scalar → Scalar → Bool)

mutual

/-- Agreement of schemas, field by field but for the declared type, as scalars compare; the order of
properties does not matter. -/
def agrees : Schema → Schema → Bool
  | ⟨kind, format, items, values, ref, properties, required, enum, description, default, access,
      _⟩, t =>
    kind == t.kind && format == t.format && agreesOption items t.items &&
      agreesOption values t.values && ref == t.ref &&
      (properties.length == t.properties.length && agreesTable properties t.properties) &&
      required == t.required && Value.agreesList eq enum t.enum && description == t.description &&
      Value.agrees eq default t.default && access == t.access

/-- Agreement of optional schemas. -/
def agreesOption : Option Schema → Option Schema → Bool
  | none, none => true
  | some s, some t => agrees s t
  | _, _ => false

/-- Every entry of the first table has one in the second that agrees with it. -/
def agreesTable : List (String × Schema) → List (String × Schema) → Bool
  | [], _ => true
  | (k, s) :: rest, t =>
    (match Table.get? t k with
      | some u => agrees s u
      | none => false) && agreesTable rest t

end

end Agreement

mutual

/-- A schema that tells of no declared types. -/
def unreferenced : Schema → Schema
  | ⟨kind, format, items, values, ref, properties, required, enum, description, default, access,
      _⟩ =>
    ⟨kind, format, unreferencedOption items, unreferencedOption values, ref,
      unreferencedTable properties, required, enum, description, default, access, none⟩

def unreferencedOption : Option Schema → Option Schema
  | none => none
  | some s => some (unreferenced s)

def unreferencedTable : List (String × Schema) → List (String × Schema)
  | [] => []
  | (k, s) :: rest => (k, unreferenced s) :: unreferencedTable rest

end

theorem unreferencedTable_eq (t : Table Schema) :
    unreferencedTable t = t.mapValues unreferenced := by
  induction t with
  | nil => rfl
  | cons e t ih =>
    obtain ⟨k, s⟩ := e
    rw [unreferencedTable, ih]
    rfl

mutual

/-- Agreement by value is sameness but for the declared types. -/
theorem agrees_same : ∀ s t : Schema, s.agrees Scalar.same t = s.unreferenced.same t.unreferenced
  | ⟨_, _, items, values, _, properties, _, _, _, _, _, _⟩,
      ⟨_, _, items', values', _, properties', _, _, _, _, _, _⟩ => by
    simp only [agrees, unreferenced, same, agreesOption_same items items',
      agreesOption_same values values', agreesTable_same properties properties',
      Value.agreesList_same, Value.agrees_same, unreferencedTable_eq, Table.mapValues,
      List.length_map, beq_self_eq_true, Bool.and_true]

theorem agreesOption_same : ∀ s t : Option Schema,
    agreesOption Scalar.same s t = sameOption (unreferencedOption s) (unreferencedOption t)
  | none, none | none, some _ | some _, none => rfl
  | some s, some t => agrees_same s t

theorem agreesTable_same : ∀ t u : List (String × Schema),
    agreesTable Scalar.same t u = sameTable (unreferencedTable t) (unreferencedTable u)
  | [], _ => rfl
  | (k, s) :: t, u => by
    rw [agreesTable, unreferencedTable, sameTable, agreesTable_same t u, unreferencedTable_eq u,
      Table.get?_mapValues]
    cases Table.get? u k with
    | none => rfl
    | some s' => exact congrArg (· && _) (agrees_same s s')

end

variable {eq : Scalar → Scalar → Bool}

theorem agrees_iff {s t : Schema} : s.agrees eq t = true ↔
    s.kind = t.kind ∧ s.ref = t.ref ∧ agreesOption eq s.items t.items = true ∧
      agreesOption eq s.values t.values = true ∧
      (s.properties.length = t.properties.length ∧
        agreesTable eq s.properties t.properties = true) ∧
      s.required = t.required ∧ s.format = t.format ∧ Value.agreesList eq s.enum t.enum = true ∧
      s.description = t.description ∧ s.default.agrees eq t.default = true ∧
      s.access = t.access := by
  obtain ⟨kind, format, items, values, ref, properties, required, enum, description, default,
    access, reference⟩ := s
  simp only [agrees, Bool.and_eq_true, beq_iff_eq]
  constructor
  · rintro ⟨⟨⟨⟨⟨⟨⟨⟨⟨⟨hkind, hformat⟩, hitems⟩, hvalues⟩, href⟩, htable⟩, hrequired⟩, henum⟩,
      hdescription⟩, hdefault⟩, haccess⟩
    exact ⟨hkind, href, hitems, hvalues, htable, hrequired, hformat, henum, hdescription, hdefault,
      haccess⟩
  · rintro ⟨hkind, href, hitems, hvalues, htable, hrequired, hformat, henum, hdescription, hdefault,
      haccess⟩
    exact ⟨⟨⟨⟨⟨⟨⟨⟨⟨⟨hkind, hformat⟩, hitems⟩, hvalues⟩, href⟩, htable⟩, hrequired⟩, henum⟩,
      hdescription⟩, hdefault⟩, haccess⟩

theorem agreesTable_iff {t u : Table Schema} : agreesTable eq t u = true ↔
    ∀ e ∈ t, ∃ s, Table.get? u e.1 = some s ∧ e.2.agrees eq s = true := by
  induction t with
  | nil => simp [agreesTable]
  | cons e t ih =>
    obtain ⟨k, s⟩ := e
    rw [agreesTable, Bool.and_eq_true, ih, List.forall_mem_cons]
    refine and_congr_left fun _ => ?_
    cases Table.get? u k <;> simp

end Schema

end ApiCompiler
