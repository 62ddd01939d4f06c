import ApiCompiler.Proofs.Declaring
import ApiCompiler.Proofs.Overriding

/-!
# Values that a schema lists

The schema of an enumeration lists the values of its members, that of a literal type the values
themselves, and both have a kind. For a literal type the kind is read from the values. For an
enumeration it is read from the class alone: integers when the class is one of integers, texts
otherwise. So a list fits its kind when all values of a literal type are of one kind, and when the
members of an enumeration are of the class that they are mixed with; the members of a plain one have
to be texts, and flags are never texts.
-/

set_option autoImplicit false

namespace ApiCompiler

/-- A value is one of those that a kind of schema is for. -/
def SchemaKind.holds : SchemaKind → Value → Bool
  | .string, .text _ => true
  | .integer, .int _ => true
  | .number, .int _ | .number, .scalar (.float _) | .number, .scalar (.decimal _) => true
  | .boolean, .bool _ => true
  | .array, .list _ => true
  | .map, .map _ | .object, .map _ => true
  | _, _ => false

namespace SchemaKind

variable {v : Value}

theorem holds_string : SchemaKind.string.holds v = true ↔ ∃ s, v = .text s := by
  rcases v with s | _ | _
  · cases s <;> simp [holds]
  · simp [holds]
  · simp [holds]

end SchemaKind

/-- The listed values of a schema are of its kind. -/
def Schema.Fits (s : Schema) : Prop := ∀ v ∈ s.enum, s.kind.holds v = true

instance (s : Schema) : Decidable s.Fits :=
  inferInstanceAs (Decidable (∀ v ∈ s.enum, s.kind.holds v = true))

namespace EnumBase

variable {base : EnumBase} {members : List Value} {v u : Value}

/-- The kind of the schema of an enumeration. -/
def kind (base : EnumBase) : SchemaKind := if base.mixin? = some .int then .integer else .string

/-- A text, an integer or a truth value. -/
def isPlainValue : Value → Bool
  | .text _ | .int _ | .bool _ => true
  | _ => false

/-- A class with the base can be made with a member of that value: integers are made of what can be
turned into one, texts of anything, and the texts of a text enumeration have to be texts. -/
def accepts (base : EnumBase) (v : Value) : Bool :=
  isPlainValue v && match base, v with
    | .intEnum, .scalar s | .intFlag, .scalar s | .int, .scalar s => (toInteger s).isSome
    | .strEnum, .text _ => true
    | .strEnum, _ => false
    | _, _ => true

/-- The values of members fit what the schema of the class says of them. -/
def Suits (base : EnumBase) (members : List Value) : Prop :=
  match base with
  | .plain => ∀ v ∈ members, SchemaKind.string.holds v = true
  | .flag => ∀ v ∈ members, isSingleBit v = false
  | _ => True

instance (base : EnumBase) (members : List Value) : Decidable (base.Suits members) :=
  match base with
  | .plain => inferInstanceAs (Decidable (∀ v ∈ members, SchemaKind.string.holds v = true))
  | .flag => inferInstanceAs (Decidable (∀ v ∈ members, isSingleBit v = false))
  | .intEnum | .strEnum | .intFlag | .str | .int => inferInstanceAs (Decidable True)

/-- Adds a value that is not the same as one that is kept. -/
def addDistinct (kept : List Value) (v : Value) : List Value :=
  if kept.any (Value.same v) then kept else kept ++ [v]

theorem mem_addDistinct {kept : List Value} (h : v ∈ addDistinct kept u) : v ∈ kept ∨ v = u := by
  unfold addDistinct at h
  split at h
  · exact .inl h
  · exact (List.mem_append.1 h).imp_right List.mem_singleton.1

theorem subset_addDistinct (kept : List Value) (v : Value) : kept ⊆ addDistinct kept v := by
  unfold addDistinct
  split
  · exact fun _ h => h
  · exact List.subset_append_left kept [v]

/-- Some value that is kept is the new one or the same as it. -/
theorem exists_mem_addDistinct (kept : List Value) (v : Value) :
    ∃ u ∈ addDistinct kept v, v = u ∨ v.same u = true := by
  unfold addDistinct
  split
  · rename_i known
    obtain ⟨u, hu, hsame⟩ := List.any_eq_true.1 known
    exact ⟨u, hu, .inr hsame⟩
  · exact ⟨v, List.mem_append_right _ (List.mem_singleton_self v), .inl rfl⟩

/-- Values that are added one after the other come from where they came from. -/
theorem mem_foldl_addDistinct {kept values : List Value}
    (h : v ∈ values.foldl addDistinct kept) : v ∈ kept ∨ v ∈ values := by
  induction values generalizing kept with
  | nil => exact .inl h
  | cons u values ih =>
    rcases ih h with h | h
    · rcases mem_addDistinct h with h | rfl
      · exact .inl h
      · exact .inr List.mem_cons_self
    · exact .inr (List.mem_cons_of_mem _ h)

theorem subset_foldl_addDistinct (kept values : List Value) :
    kept ⊆ values.foldl addDistinct kept := by
  induction values generalizing kept with
  | nil => exact fun _ h => h
  | cons u values ih => exact List.Subset.trans (subset_addDistinct kept u) (ih _)

/-- Of each value one is kept that it is the same as. -/
theorem exists_mem_foldl_addDistinct {kept values : List Value} (h : v ∈ values) :
    ∃ u ∈ values.foldl addDistinct kept, v = u ∨ v.same u = true := by
  induction values generalizing kept with
  | nil => cases h
  | cons u values ih =>
    rcases List.mem_cons.1 h with rfl | h
    · obtain ⟨u, hu, hsame⟩ := exists_mem_addDistinct kept v
      exact ⟨u, subset_foldl_addDistinct _ values hu, hsame⟩
    · exact ih h

/-- The values of members, each kept once. -/
def memberValues (base : EnumBase) (members : List Value) : List Value :=
  (members.map base.value).foldl addDistinct []

theorem mem_memberValues (h : v ∈ base.memberValues members) : ∃ u ∈ members, base.value u = v :=
  List.mem_map.1 ((mem_foldl_addDistinct h).resolve_left List.not_mem_nil)

theorem exists_mem_memberValues (base : EnumBase) (h : v ∈ members) :
    ∃ u ∈ base.memberValues members, base.value v = u ∨ (base.value v).same u = true :=
  exists_mem_foldl_addDistinct (List.mem_map_of_mem h)

/-- Of flags only single bits are listed. -/
theorem mem_listed : v ∈ base.listed members ↔ v ∈ base.memberValues members ∧
    (base = .flag ∨ base = .intFlag → isSingleBit v = true) := by
  show v ∈ (if base = .flag ∨ base = .intFlag then (base.memberValues members).filter isSingleBit
    else base.memberValues members) ↔ _
  split
  · rename_i flags
    rw [List.mem_filter]
    exact and_congr_right fun _ => ⟨fun h _ => h, fun h => h flags⟩
  · rename_i others
    exact ⟨fun h => ⟨h, fun flags => absurd flags others⟩, And.left⟩

/-- What is the same as a text is a text. -/
theorem holds_string_of_same (h : v.same u = true) (hu : SchemaKind.string.holds u = true) :
    SchemaKind.string.holds v = true := by
  obtain ⟨s, rfl⟩ := SchemaKind.holds_string.1 hu
  rcases v with a | _ | _
  · have same : a.same (.text s) = true := by simpa [Value.same] using h
    unfold Scalar.same at same
    split at same
    · rename_i absent
      cases absent
    · obtain rfl : a = .text s := eq_of_beq (Bool.and_eq_true_iff.1 same).1
      rfl
    · cases same
  · simp [Value.same] at h
  · simp [Value.same] at h

/-- Integers and truth values that are the same are single bits together. -/
theorem isSingleBit_of_same (h : v.same u = true) (hv : isSingleBit v = true)
    (hu : isPlainValue u = true) : isSingleBit u = true := by
  unfold isSingleBit at hv
  unfold isPlainValue at hu
  split at hv
  · subst hv
    split at hu
    · simp [Value.same, Scalar.same, Scalar.ratio?] at h
    · rename_i n
      obtain rfl : 1 = n := by simpa [Value.same, Scalar.same, Scalar.ratio?] using h
      rfl
    · rename_i b
      simpa [Value.same, Scalar.same, Scalar.ratio?, isSingleBit] using h
    · cases hu
  · rename_i n
    split at hu
    · simp [Value.same, Scalar.same, Scalar.ratio?] at h
    · rename_i m
      obtain rfl : n = m := by simpa [Value.same, Scalar.same, Scalar.ratio?] using h
      exact hv
    · rename_i b
      cases b with
      | true => rfl
      | false =>
        obtain rfl : n = 0 := by simpa [Value.same, Scalar.same, Scalar.ratio?] using h
        cases hv
    · cases hu
  · cases hv

/-- A member of an enumeration that is mixed with a class has a value of that class. -/
theorem value_holds (h : base.accepts v = true) (mixed : base.mixin? ≠ none) :
    base.kind.holds (base.value v) = true := by
  obtain ⟨plain, accepted⟩ := Bool.and_eq_true_iff.1 h
  rcases v with s | _ | _
  · cases base with
    | plain | flag => exact absurd rfl mixed
    | str => rfl
    | strEnum =>
      cases s with
      | text => rfl
      | _ => cases accepted
    | int | intEnum | intFlag =>
      obtain ⟨n, hn⟩ := Option.isSome_iff_exists.1 accepted
      simp [value, hn, kind, mixin?, SchemaKind.holds]
  · cases plain
  · cases plain

theorem listed_plain : (∀ v ∈ plain.listed members, SchemaKind.string.holds v = true) ↔
    ∀ v ∈ members, SchemaKind.string.holds v = true := by
  constructor
  · intro fits v hv
    obtain ⟨u, hu, hsame⟩ := exists_mem_memberValues .plain hv
    have text := fits u (mem_listed.2 ⟨hu, by simp⟩)
    rcases hsame with rfl | hsame
    · exact text
    · exact holds_string_of_same hsame text
  · intro texts v hv
    obtain ⟨u, hu, rfl⟩ := mem_memberValues (mem_listed.1 hv).1
    exact texts u hu

/-- A flag that is listed is no text. -/
theorem listed_flag (h : ∀ v ∈ members, isPlainValue v = true) :
    (∀ v ∈ flag.listed members, SchemaKind.string.holds v = true) ↔
      ∀ v ∈ members, isSingleBit v = false := by
  constructor
  · intro fits v hv
    rw [← Bool.not_eq_true]
    intro bit
    obtain ⟨u, hu, hsame⟩ := exists_mem_memberValues .flag hv
    obtain ⟨u', hu', rfl⟩ := mem_memberValues hu
    have listed : isSingleBit u' = true := by
      rcases hsame with rfl | hsame
      · exact bit
      · exact isSingleBit_of_same hsame bit (h u' hu')
    obtain ⟨s, rfl⟩ := SchemaKind.holds_string.1 (fits _ (mem_listed.2 ⟨hu, fun _ => listed⟩))
    cases listed
  · intro none v hv
    obtain ⟨hmem, bit⟩ := mem_listed.1 hv
    obtain ⟨u, hu, rfl⟩ := mem_memberValues hmem
    exact absurd (bit (.inl rfl)) (by simpa [value] using none u hu)

/-- The listed values fit the kind that goes with the base exactly when the members suit it. -/
theorem listed_fits_iff (h : ∀ v ∈ members, base.accepts v = true) :
    (∀ v ∈ base.listed members, base.kind.holds v = true) ↔ base.Suits members := by
  have mixed (hm : base.mixin? ≠ none) : ∀ v ∈ base.listed members, base.kind.holds v = true := by
    intro v hv
    obtain ⟨u, hu, rfl⟩ := mem_memberValues (mem_listed.1 hv).1
    exact value_holds (h u hu) hm
  cases base with
  | plain => exact listed_plain
  | flag => exact listed_flag fun v hv => (Bool.and_eq_true_iff.1 (h v hv)).1
  | intEnum | strEnum | intFlag | str | int => exact iff_of_true (mixed nofun) trivial

end EnumBase

namespace World

section Enumeration

variable {w earlier : World} {spec : ClassSpec} {i : Nat} {base : EnumBase}
  (h : w.DeclaredAs earlier spec i) (hk : spec.kind = .enumeration base)

include h hk

theorem isBelow_enumeration (c : Builtin) :
    w.isBelow (.declared i) c = (base.mixin?.toList ++ [Builtin.object]).any (· == c) := by
  unfold isBelow
  rw [h.lineage_alone (by rw [hk]; rfl), hk, List.any_cons, List.any_map]
  rfl

/-- What the schema of an enumeration lists, and of which kind it is. -/
theorem enumerationSchema_enumeration : w.enumerationSchema? (.declared i) =
    some (.primitive base.kind none (base.listed spec.members)) := by
  obtain ⟨nested, _, line⟩ := h.declaredLineage_alone (by rw [hk]; rfl)
  have kind : (if w.isBelow (.declared i) .int then SchemaKind.integer else .string) =
      base.kind := by
    rw [isBelow_enumeration h hk]
    cases base <;> rfl
  have values : (spec.declare earlier).enumValues = base.listed spec.members := by
    simp only [ClassSpec.declare, hk]
  have enumeration : w.isEnumeration (.declared i) = true := by
    unfold isEnumeration
    rw [line]
    simp [ClassSpec.declare, hk]
  unfold enumerationSchema?
  rw [if_pos enumeration, kind, line, ← values]
  rfl

theorem overridable_enumeration : w.overridable (.declared i) = true := by
  have noToken : w.isToken (.declared i) = false := by
    unfold isToken
    rw [isBelow_enumeration h hk]
    cases base <;> rfl
  have element (bound : Nat) : w.elementAbove bound (.declared i) = none := by
    cases bound with
    | zero => rfl
    | succ bound => simp [elementAbove, noToken]
  show (w.tokenElement (.declared i)).isNone = true
  unfold tokenElement
  rw [element]
  rfl

end Enumeration

/-- All values are texts, all are integers or all are truth values. -/
def OfOneKind (values : List Scalar) : Prop :=
  ∃ kind ∈ [SchemaKind.string, .integer, .boolean],
    ∀ s ∈ values, kind.holds (.scalar s) = true

theorem isBoolLiteral_eq (s : Scalar) : isBoolLiteral s = SchemaKind.boolean.holds (.scalar s) := by
  cases s <;> rfl

theorem isIntLiteral_eq (s : Scalar) : isIntLiteral s = SchemaKind.integer.holds (.scalar s) := by
  cases s <;> rfl

/-- The kind of a literal type is the one that all its values are of, if there is one. -/
theorem literalSchema_fits_iff (values : List Scalar) :
    (literalSchema values).Fits ↔ OfOneKind values := by
  have fits (kind : SchemaKind) : (Schema.primitive kind none (values.map .scalar)).Fits ↔
      ∀ s ∈ values, kind.holds (.scalar s) = true :=
    List.forall_mem_map
  have bools : values.all isBoolLiteral = true ↔
      ∀ s ∈ values, SchemaKind.boolean.holds (.scalar s) = true := by
    simp only [List.all_eq_true, isBoolLiteral_eq]
  have ints : values.all isIntLiteral = true ↔
      ∀ s ∈ values, SchemaKind.integer.holds (.scalar s) = true := by
    simp only [List.all_eq_true, isIntLiteral_eq]
  unfold literalSchema
  dsimp only
  rw [fits]
  constructor
  · intro h
    refine ⟨_, ?_, h⟩
    split
    · simp
    · split <;> simp
  · rintro ⟨kind, hkind, h⟩
    split
    · rename_i hb
      exact bools.1 hb
    · rename_i hb
      split
      · rename_i hi
        exact ints.1 hi
      · rename_i hi
        simp only [List.mem_cons, List.not_mem_nil, or_false] at hkind
        rcases hkind with rfl | rfl | rfl
        · exact h
        · exact absurd (ints.2 h) hi
        · exact absurd (bools.2 h) hb

end World

/-- What stands for a type by a primitive name lists no values. -/
theorem Primitive.enum_find {name : String} {s : Schema} (h : find? name = some s) :
    s.enum = [] := by
  unfold find? at h
  dsimp only at h
  split at h
  · rw [← Option.some.inj h]
    rfl
  · obtain ⟨_, _, rfl⟩ := Option.map_eq_some_iff.1 h
    rfl

/-- A type that the schema is read off from has that schema, unless it is overridden; then nothing
is listed. -/
theorem Run.resolve_fits {w : World} {t : TypeExpr} {s : Schema} {p : Progress}
    {entries : List (TypeExpr × String)}
    (made : Overrides.ofNames entries [] = .ok p.registry.overrides)
    (tested : w.overridable t.bare = true) (own : w.ownShape t.bare = .fixed s) :
    ∃ r, resolve w t p = .ok r p ∧
      (r.Fits ↔ (p.registry.overrides.find? t.bare).isSome ∨ s.Fits) := by
  cases found : p.registry.overrides.find? t.bare with
  | some r =>
    obtain ⟨e, he, rfl⟩ := Option.map_eq_some_iff.1 found
    obtain ⟨name, hname⟩ := Overrides.find_of_ofNames made (List.mem_of_find?_eq_some he)
    refine ⟨e.2, World.resolveWithin_found tested found, iff_of_true ?_ (.inl rfl)⟩
    unfold Schema.Fits
    rw [Primitive.enum_find hname]
    exact nofun
  | none =>
    refine ⟨s, ?_, by simp⟩
    change resolveShape w (resolveWithin w _) t p = .ok s p
    unfold resolveShape
    rw [bind_of_ok (get_apply p), World.shape_of_overridable tested, found, own]
    rfl

/-- In a world of declarations every class is as one of them says, and the schema of every
enumeration and of every literal type is found. The values that it lists are of its kind in exactly
these cases: the type is overridden; the members of the enumeration are integers or texts since it
is mixed with that class, or all are texts, or it is a class of flags none of which is a single bit;
the values of the literal type are of one kind. -/
theorem World.listed_values_fit {decls : List Value} {w : World} {p : Progress}
    {entries : List (TypeExpr × String)} (hw : ofDeclarations decls = .ok w)
    (made : Overrides.ofNames entries [] = .ok p.registry.overrides) :
    w.Specified (· ∈ decls) ∧
    (∀ (earlier : World) (spec : ClassSpec) (i : Nat) (base : EnumBase),
      w.DeclaredAs earlier spec i → spec.kind = .enumeration base →
      (∀ v ∈ spec.members, base.accepts v = true) → ∀ t : TypeExpr, t.bare = .declared i →
        ∃ s, Run.resolve w t p = .ok s p ∧
          (s.Fits ↔ (p.registry.overrides.find? t.bare).isSome ∨ base.Suits spec.members)) ∧
    ∀ (values : List Scalar) (t : TypeExpr), t.bare = .literal values →
      ∃ s, Run.resolve w t p = .ok s p ∧
        (s.Fits ↔ (p.registry.overrides.find? t.bare).isSome ∨ OfOneKind values) := by
  refine ⟨Specified.ofDeclarations hw, fun earlier spec i base declared hk accepted t ht => ?_,
    fun values t ht => ?_⟩
  · have own : w.ownShape t.bare =
        .fixed (.primitive base.kind none (base.listed spec.members)) := by
      unfold ownShape
      rw [ht]
      simp [enumerationSchema_enumeration declared hk]
    rw [← EnumBase.listed_fits_iff accepted]
    exact Run.resolve_fits made (ht ▸ overridable_enumeration declared hk) own
  · have own : w.ownShape t.bare = .fixed (literalSchema values) := by rw [ht]; rfl
    rw [← literalSchema_fits_iff]
    exact Run.resolve_fits made (ht ▸ rfl) own

namespace World

def enumerationDecl (id base : String) (members : List Value) : Value :=
  .map [(.text "kind", .text "enum"), (.text "id", .text id), (.text "base", .text base),
    (.text "members", .list (members.map fun v => .list [.text "member", v]))]

/-- Colors, which are texts, sizes, which are integers, and flags. -/
def enumerationDecls : List Value := [
  enumerationDecl "Color" "Enum" [.text "red", .text "green"],
  enumerationDecl "Size" "Enum" [.int 1, .int 2],
  enumerationDecl "Access" "Flag" [.int 1, .int 2, .int 3]]

def enumerationClass (name : String) (base : EnumBase) (values : List Value) : TypeDecl :=
  .cls {
    name
    qualname := name
    kind := .enumeration base
    above := [.builtin .object]
    enumValues := values }

def enumerations : World where
  decls := [
    enumerationClass "Color" .plain [.text "red", .text "green"],
    enumerationClass "Size" .plain [.int 1, .int 2],
    enumerationClass "Access" .flag [.int 1, .int 2]]
  names := [("Color", .declared 0), ("Size", .declared 1), ("Access", .declared 2)]

/-- Colors fit, and so do the words of a literal type. -/
theorem listed_values_fit_colors :
    (∃ s, Run.resolve enumerations (.declared 0) {} = .ok s {} ∧ s.Fits) ∧
      ∃ s, Run.resolve enumerations (.literal [.text "up", .text "down"]) {} = .ok s {} ∧
        s.Fits := by
  have declared : ofDeclarations enumerationDecls = .ok enumerations := rfl
  have made : Overrides.ofNames [] [] = .ok [] := rfl
  obtain ⟨_, classes, literals⟩ := listed_values_fit (p := {}) declared made
  obtain ⟨s, hs, fits⟩ := classes {}
    { id := "Color", name := "Color", kind := .enumeration .plain
      members := [.text "red", .text "green"] } 0 .plain ⟨[], rfl⟩ rfl (by decide) (.declared 0) rfl
  obtain ⟨s', hs', fits'⟩ := literals [.text "up", .text "down"]
    (.literal [.text "up", .text "down"]) rfl
  exact ⟨⟨s, hs, fits.2 (.inr (by decide))⟩,
    s', hs', fits'.2 (.inr ⟨.string, by decide, by decide⟩)⟩

/-- Sizes and flags are listed as integers among texts, and so is an integer with a word. -/
theorem sizes_misfit : ofDeclarations enumerationDecls = .ok enumerations ∧
    (∃ s, Run.resolve enumerations (.declared 1) {} = .ok s {} ∧ s.kind = .string ∧
      s.enum = [.int 1, .int 2] ∧ ¬ s.Fits) ∧
    (∃ s, Run.resolve enumerations (.declared 2) {} = .ok s {} ∧ s.kind = .string ∧
      s.enum = [.int 1, .int 2] ∧ ¬ s.Fits) ∧
    ∃ s, Run.resolve enumerations (.literal [.int 1, .text "many"]) {} = .ok s {} ∧
      s.kind = .string ∧ s.enum = [.int 1, .text "many"] ∧ ¬ s.Fits := by
  exact ⟨rfl, ⟨_, rfl, rfl, rfl, by decide⟩, ⟨_, rfl, rfl, rfl, by decide⟩,
    _, rfl, rfl, rfl, by decide⟩

end World

end ApiCompiler
