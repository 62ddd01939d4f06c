import ApiCompiler.Proofs.Templates

/-!
# The grammar of paths

What a path is written from: literal text, placeholders, and placeholders with a pattern, whose
braces are balanced. A path of single pieces is read back exactly, whatever slashes stand between
them. Where a segment has several pieces, only a segment that is one placeholder is read; the others
are shown as they are written.
-/

set_option autoImplicit false

namespace ApiCompiler.Path

open Text (trimChars)

variable {cs front name pattern : List Char}

/-! ### Pieces -/

/-- What segments are put together from. -/
inductive Piece
  | text (cs : List Char)
  | bare (name : List Char)
  | capturing (name pattern : List Char)
  deriving DecidableEq, Repr

namespace Piece

/-- A piece as it is written. -/
def chars : Piece → List Char
  | text cs => cs
  | bare name => Path.bare name
  | capturing name pattern => Path.capturing name pattern

/-- A text has no slash and no brace, a name has no brace and no colon and is not blank, and the
braces of a pattern are balanced. -/
def Valid : Piece → Prop
  | text cs => Literal cs ∧ cs ≠ []
  | bare name => Naming name ∧ name ≠ []
  | capturing name pattern => Naming name ∧ trimChars name ≠ [] ∧ Balanced pattern

instance (p : Piece) : Decidable p.Valid :=
  match p with
  | text _ => inferInstanceAs (Decidable (_ ∧ _))
  | bare _ => inferInstanceAs (Decidable (_ ∧ _))
  | capturing _ _ => inferInstanceAs (Decidable (_ ∧ _ ∧ _))

/-- A piece without its pattern, and without blanks around a name that has one. -/
def shown : Piece → List Char
  | text cs => cs
  | bare name => Path.bare name
  | capturing name _ => Path.bare (trimChars name)

/-- The name that a piece declares. -/
def name? : Piece → Option String
  | text _ => none
  | bare name => some (String.ofList name)
  | capturing name _ => some (String.ofList (trimChars name))

/-- The pattern that a piece declares, with its name. -/
def declared? : Piece → Option (String × String)
  | capturing name pattern =>
    some (String.ofList (trimChars name), String.ofList (trimChars pattern))
  | _ => none

def isPlaceholder : Piece → Bool
  | text _ => false
  | _ => true

/-- The name that a piece declares without a pattern. -/
def plain? : Piece → Option String
  | bare name => some (String.ofList name)
  | _ => none

/-- A placeholder with braces in its pattern. -/
def HasBraces : Piece → Prop
  | capturing _ pattern => '{' ∈ pattern
  | _ => False

instance (p : Piece) : Decidable p.HasBraces :=
  match p with
  | text _ => inferInstanceAs (Decidable False)
  | bare _ => inferInstanceAs (Decidable False)
  | capturing _ pattern => inferInstanceAs (Decidable ('{' ∈ pattern))

/-- What is taken for a name in the text of a piece. -/
def found (p : Piece) : List String := placeholders (String.ofList p.chars)

variable {p : Piece}

theorem sealed_capturing (h : Naming name) (hpattern : Balanced pattern) :
    Sealed (Path.capturing name pattern) := by
  have front : ∀ c ∈ name ++ [':'], c ≠ '{' ∧ c ≠ '}' :=
    List.forall_mem_append.2 ⟨h.plain, List.forall_mem_singleton.2 (by decide)⟩
  have text : name ++ ':' :: pattern = (name ++ [':']) ++ pattern := by simp
  have one : openedBy 1 (name ++ [':']) = 1 := openedBy_of_plain front 1
  refine sealed_bare ?_ ?_
  · rw [text, whole_append, one]
    exact ⟨whole_of_plain front (.inl Nat.one_ne_zero), hpattern.whole Nat.one_ne_zero⟩
  · rw [text, openedBy_append, one, hpattern.openedBy_eq]

theorem Valid.sealed (h : p.Valid) : Sealed p.chars := by
  cases p with
  | text cs => exact (Shown.literal h.1 h.2).sealed
  | bare name => exact (Shown.bare h.1 h.2).sealed
  | capturing name pattern => exact sealed_capturing h.1 h.2.2

/-- A single piece is read back. -/
theorem Valid.readSegment_chars (h : p.Valid) : (readSegment p.chars).shown = p.shown ∧
    (readSegment p.chars).captured.map (fun c => (String.ofList c.1, String.ofList c.2)) =
      p.declared? := by
  cases p with
  | text cs =>
    rw [chars, readSegment_of_literal h.1]
    exact ⟨rfl, rfl⟩
  | bare name =>
    rw [chars, readSegment_of_shown (.bare h.1 h.2)]
    exact ⟨rfl, rfl⟩
  | capturing name pattern =>
    rw [chars, readSegment_capturing h.1.colon_not_mem]
    exact ⟨rfl, rfl⟩

/-- A piece that is no text stands between braces. -/
theorem Valid.text_or_braces (h : p.Valid) :
    (∃ cs, p = text cs) ∨ p.chars.head? = some '{' ∧ p.chars.getLast? = some '}' := by
  cases p with
  | text cs => exact .inl ⟨cs, rfl⟩
  | bare name => exact .inr ⟨rfl, List.getLast?_concat⟩
  | capturing name pattern => exact .inr ⟨rfl, List.getLast?_concat⟩

end Piece

/-! ### Paths of single pieces -/

/-- A path that is written from pieces with one or more slashes between them, and with any number of
slashes at both ends. -/
inductive Spells : List Piece → List Char → Prop
  | nil : Spells [] []
  | slash {ps : List Piece} {cs : List Char} (h : Spells ps cs) : Spells ps ('/' :: cs)
  | last (p : Piece) : Spells [p] p.chars
  | cons (p : Piece) {ps : List Piece} {cs : List Char} (h : Spells ps cs) :
      Spells (p :: ps) (p.chars ++ '/' :: cs)

theorem Spells.solid_eq {ps : List Piece} (h : Spells ps cs) (hvalid : ∀ p ∈ ps, p.Valid) :
    solid cs = ps.map Piece.chars := by
  have single (p : Piece) (hp : p.Valid) : solid p.chars = [p.chars] := by
    have parts := hp.sealed
    rw [solid, parts.segments_eq]
    exact List.filter_cons_of_pos (by simpa using parts.ne_nil)
  induction h with
  | nil => rfl
  | slash _ ih => exact ih hvalid
  | last p => exact single p (hvalid p List.mem_cons_self)
  | cons p _ ih =>
    obtain ⟨hp, hps⟩ := List.forall_mem_cons.1 hvalid
    rw [solid_append hp.sealed.closed, single p hp, ih hps]
    rfl

/-- Between braces there are no blanks at the ends, so only a text may have them. -/
theorem Piece.Valid.tight {p : Piece} (h : p.Valid)
    (htext : ∀ cs, p = .text cs → trimChars cs = cs) : Tight p.chars := by
  rcases h.text_or_braces with ⟨cs, rfl⟩ | ⟨hfirst, hlast⟩
  · exact tight_iff.2 (htext cs rfl)
  · constructor
    · intro c hc
      cases hfirst.symm.trans hc
      decide
    · intro c hc
      cases hlast.symm.trans hc
      decide

theorem Spells.tight {ps : List Piece} (h : Spells ps cs)
    (hps : ∀ p ∈ ps, p.Valid ∧ ∀ t, p = .text t → trimChars t = t) : Tight cs := by
  have slash (cs : List Char) (h : Tight cs) : Tight ('/' :: cs) := by
    cases cs with
    | nil => exact tight_slash
    | cons c cs => exact tight_slash.append h (List.cons_ne_nil _ _) (List.cons_ne_nil _ _)
  induction h with
  | nil => exact ⟨nofun, nofun⟩
  | slash _ ih => exact slash _ (ih hps)
  | last p =>
    obtain ⟨hp, htext⟩ := hps p List.mem_cons_self
    exact hp.tight htext
  | cons p _ ih =>
    obtain ⟨⟨hp, htext⟩, hps⟩ := List.forall_mem_cons.1 hps
    exact (hp.tight htext).append (slash _ (ih hps)) hp.sealed.ne_nil (List.cons_ne_nil _ _)

theorem distinct_patterns (path : String) : (normalize path).patterns.Distinct :=
  Table.distinct_nil.merge _

/-- What a path captures, where it is known what its segments capture. -/
theorem get?_patterns {path : String} {α : Type} {parts : List α} {chars : α → List Char}
    {declared? : α → Option (String × String)} (hpath : pathSegments path = parts.map chars)
    (hparts : ∀ a ∈ parts, (readSegment (chars a)).captured.map
      (fun c => (String.ofList c.1, String.ofList c.2)) = declared? a) (name : String) :
    (normalize path).patterns.get? name = Table.lastAt (parts.filterMap declared?) name := by
  have captured : capturedBy (pathSegments path) = parts.filterMap declared? := by
    rw [hpath, capturedBy, List.filterMap_map]
    exact List.filterMap_congr hparts
  rw [patterns_normalize, ← pathSegments, captured, Table.ofList, Table.get?_merge, Table.get?_nil,
    Option.or_none]

/-- A path of single pieces is read back: its template shows them behind single slashes, and the
pattern of a name is the one that is declared last. -/
theorem normalize_spelled {ps : List Piece} {path : String}
    (hps : ∀ p ∈ ps, p.Valid ∧ ∀ cs, p = .text cs → trimChars cs = cs)
    (h : Spells ps path.toList) :
    (normalize path).text = String.ofList (shownAs (ps.map Piece.shown)) ∧
      (normalize path).patterns.Distinct ∧
      ∀ name, (normalize path).patterns.get? name =
        Table.lastAt (ps.filterMap Piece.declared?) name := by
  have hvalid : ∀ p ∈ ps, p.Valid := fun p hp => (hps p hp).1
  have parts : pathSegments path = ps.map Piece.chars := by
    rw [pathSegments, tight_iff.1 (h.tight hps), h.solid_eq hvalid]
  refine ⟨?_, distinct_patterns path, get?_patterns parts fun p hp =>
    (hvalid p hp).readSegment_chars.2⟩
  have shown : templateSegments path = ps.map Piece.shown := by
    rw [templateSegments_eq, parts, List.map_map]
    exact List.map_congr_left fun p hp => (hvalid p hp).readSegment_chars.1
  rw [← shown, ← toList_normalize, String.ofList_toList]

/-- Files below a pattern with a slash, a brace and a colon, and a name that is declared twice. -/
theorem normalize_spelled_files :
    (normalize "//files/{p:[a-z]{2}/x:y}//{id}/{ p : z }/").text = "/files/{p}/{id}/{p}" ∧
      (normalize "//files/{p:[a-z]{2}/x:y}//{id}/{ p : z }/").patterns.get? "p" = some "z" := by
  let ps : List Piece := [.text "files".toList, .capturing "p".toList "[a-z]{2}/x:y".toList,
    .bare "id".toList, .capturing " p ".toList " z ".toList]
  have valid : ∀ p ∈ ps, p.Valid ∧ ∀ cs, p = .text cs → trimChars cs = cs := by
    intro p hp
    refine ⟨(show ∀ p ∈ ps, p.Valid by decide +kernel) p hp, ?_⟩
    rintro cs rfl
    obtain rfl : cs = "files".toList := by simpa [ps] using hp
    decide
  have spells : Spells ps "//files/{p:[a-z]{2}/x:y}//{id}/{ p : z }/".toList :=
    .slash (.slash (.cons _ (.cons _ (.slash (.cons _ (.cons _ .nil))))))
  obtain ⟨text, -, patterns⟩ := normalize_spelled valid spells
  rw [text, patterns]
  decide +kernel

/-! ### Segments of several pieces -/

/-- The text of a segment. -/
def written (s : List Piece) : List Char := s.flatMap Piece.chars

/-- The text of segments behind single slashes. -/
def writtenPath (ss : List (List Piece)) : List Char := List.intercalate ['/'] (ss.map written)

/-- What is shown of a segment: that of a single piece has no pattern. -/
def shownOf : List Piece → List Char
  | [p] => p.shown
  | s => written s

/-- What a segment declares: only that of a single piece is read. -/
def declaredBy : List Piece → Option (String × String)
  | [p] => p.declared?
  | _ => none

/-- The names that a segment declares, apart from those that share it and have a pattern. -/
def namesOf : List Piece → List String
  | [p] => p.name?.toList
  | s => s.filterMap Piece.plain?

/-- What is taken for a name in what is shown of a segment. -/
def foundIn : List Piece → List String
  | [p] => p.name?.toList
  | s => s.flatMap Piece.found

/-- A segment of several pieces is not taken for a single placeholder: it does not both begin and
end with a placeholder while there is a colon in it. -/
def Legible (s : List Piece) : Prop :=
  s.length ≤ 1 ∨ ¬ (s.head?.any Piece.isPlaceholder ∧ s.getLast?.any Piece.isPlaceholder ∧
    ∃ p ∈ s, ':' ∈ p.chars)

instance (s : List Piece) : Decidable (Legible s) := inferInstanceAs (Decidable (_ ∨ ¬ (_ ∧ _ ∧ _)))

variable {s : List Piece} {ss : List (List Piece)}

theorem parts_of_several (h : ¬ ∃ p, s = [p]) : shownOf s = written s ∧ declaredBy s = none ∧
    namesOf s = s.filterMap Piece.plain? ∧ foundIn s = s.flatMap Piece.found := by
  match s with
  | [] => exact ⟨rfl, rfl, rfl, rfl⟩
  | [p] => exact absurd ⟨p, rfl⟩ h
  | _ :: _ :: _ => exact ⟨rfl, rfl, rfl, rfl⟩

theorem whole_written (h : ∀ p ∈ s, p.Valid) : Whole 0 (written s) ∧ Closed (written s) := by
  induction s with
  | nil => exact ⟨trivial, rfl⟩
  | cons p s ih =>
    obtain ⟨hp, hs⟩ := List.forall_mem_cons.1 h
    obtain ⟨whole, closed⟩ := ih hs
    have parts := hp.sealed
    constructor
    · rw [written, List.flatMap_cons, whole_append, parts.closed]
      exact ⟨parts.whole, whole⟩
    · exact Closed.append parts.closed closed

theorem written_eq_nil_iff (h : ∀ p ∈ s, p.Valid) : written s = [] ↔ s = [] := by
  constructor
  · intro hnil
    rw [written, List.flatMap_eq_nil_iff] at hnil
    exact List.eq_nil_iff_forall_not_mem.2 fun p hp => (h p hp).sealed.ne_nil (hnil p hp)
  · rintro rfl
    rfl

theorem isPlaceholder_of_head? (h : ∀ p ∈ s, p.Valid) (hfirst : (written s).head? = some '{') :
    s.head?.any Piece.isPlaceholder := by
  cases s with
  | nil => cases hfirst
  | cons p s =>
    obtain ⟨hp, -⟩ := List.forall_mem_cons.1 h
    cases p with
    | text cs =>
      obtain ⟨c, more, hcs⟩ := List.exists_cons_of_ne_nil hp.2
      rw [written, List.flatMap_cons, Piece.chars, hcs] at hfirst
      exact absurd (Option.some.inj hfirst) (hp.1 c (hcs ▸ List.mem_cons_self)).2.1
    | bare name => rfl
    | capturing name pattern => rfl

theorem isPlaceholder_of_getLast? (h : ∀ p ∈ s, p.Valid) (hlast : (written s).getLast? = some '}') :
    s.getLast?.any Piece.isPlaceholder := by
  rcases List.eq_nil_or_concat' s with rfl | ⟨init, p, rfl⟩
  · cases hlast
  · have hp : p.Valid := h p (List.mem_append_right _ List.mem_cons_self)
    rw [List.getLast?_concat]
    cases p with
    | text cs =>
      rw [written, List.flatMap_append, List.flatMap_singleton, Piece.chars,
        List.getLast?_append_of_ne_nil _ hp.2] at hlast
      exact absurd rfl (hp.1 _ (List.mem_of_getLast? hlast)).2.2
    | bare name => rfl
    | capturing name pattern => rfl

/-- A segment of several pieces that is legible is shown as it is written. -/
theorem readSegment_written (h : ∀ p ∈ s, p.Valid) (hlegible : Legible s) :
    (readSegment (written s)).shown = shownOf s ∧
      (readSegment (written s)).captured.map (fun c => (String.ofList c.1, String.ofList c.2)) =
        declaredBy s := by
  by_cases hsingle : ∃ p, s = [p]
  · obtain ⟨p, rfl⟩ := hsingle
    have text : written [p] = p.chars := List.append_nil _
    rw [text]
    exact (h p List.mem_cons_self).readSegment_chars
  · -- a text at either end keeps the braces of a placeholder from being those of the segment
    have unread : ¬ Enclosed (written s) := by
      rintro ⟨hfirst, hlast, hcolon⟩
      have short : s.length ≤ 1 := hlegible.resolve_right fun hlegible =>
        hlegible ⟨isPlaceholder_of_head? h hfirst, isPlaceholder_of_getLast? h hlast,
          List.mem_flatMap.1 hcolon⟩
      have hne : s ≠ [] := by
        rintro rfl
        cases hfirst
      exact hsingle (List.length_eq_one_iff.1 (short.antisymm (List.length_pos_iff.2 hne)))
    obtain ⟨hshown, hdeclared, -⟩ := parts_of_several hsingle
    rw [readSegment_of_not_enclosed unread, hshown, hdeclared]
    exact ⟨rfl, rfl⟩

/-- Empty segments apart, the segments of a path are those that it is written from. -/
theorem solid_writtenPath (h : ∀ s ∈ ss, ∀ p ∈ s, p.Valid) :
    solid (writtenPath ss) = (ss.filter (· ≠ [])).map written := by
  by_cases hne : ss = []
  · rw [hne]
    rfl
  · have cut : Cut 0 (ss.map written) := by
      refine cut_of_forall (by simpa using hne) (List.forall_mem_map.2 fun s hs => ?_) ?_
      · exact (whole_written (h s hs)).1
      · rw [← List.map_dropLast]
        refine List.forall_mem_map.2 fun s hs => ?_
        exact (whole_written (h s ((List.dropLast_sublist _).subset hs))).2
    rw [solid, writtenPath, cut.segments_intercalate, List.filter_map]
    refine congrArg _ (List.filter_congr fun s hs => ?_)
    simpa using written_eq_nil_iff (h s hs)

/-! ### Names in a template -/

/-- From outside of braces, the text has the given names and leads outside again. -/
def Names (cs : List Char) (names : List (List Char)) : Prop :=
  ∀ rest, placeholdersFrom none (cs ++ rest) = names ++ placeholdersFrom none rest

theorem names_nil : Names [] [] := fun _ => rfl

theorem Names.append {names names' : List (List Char)} (h : Names front names)
    (hrest : Names cs names') : Names (front ++ cs) (names ++ names') := by
  intro rest
  rw [List.append_assoc, h, hrest, List.append_assoc]

theorem names_of_plain (h : ∀ c ∈ cs, c ≠ '{') : Names cs [] := by
  induction cs with
  | nil => exact names_nil
  | cons c cs ih =>
    obtain ⟨hc, hcs⟩ := List.forall_mem_cons.1 h
    intro rest
    rw [List.cons_append, placeholdersFrom, if_neg hc]
    exact ih hcs rest

theorem names_bare (h : Naming name) (hne : name ≠ []) : Names (bare name) [name] := by
  intro rest
  have text : bare name ++ rest = '{' :: (name ++ '}' :: rest) := by simp [bare]
  rw [text, placeholdersFrom, if_pos rfl]
  exact placeholdersFrom_naming h rest [] hne

theorem Piece.Valid.names_shown {p : Piece} (h : p.Valid) :
    Names p.shown (p.name?.toList.map String.toList) := by
  cases p with
  | text cs => exact names_of_plain fun c hc => (h.1 c hc).2.1
  | bare name =>
    have names := names_bare h.1 h.2
    rwa [Piece.shown, Piece.name?, Option.toList_some, List.map_singleton, String.toList_ofList]
  | capturing name pattern =>
    have names := names_bare (fun c hc => h.1 c (mem_trimChars hc)) h.2.1
    rwa [Piece.shown, Piece.name?, Option.toList_some, List.map_singleton, String.toList_ofList]

/-- A name ends at its colon, and is none. -/
theorem placeholdersFrom_colon (h : Naming name) (rest : List Char) :
    ∀ acc : List Char, placeholdersFrom (some acc) (name ++ ':' :: rest) =
      placeholdersFrom none rest := by
  induction name with
  | nil => exact fun _ => rfl
  | cons c name ih =>
    intro acc
    obtain ⟨⟨hopen, hclose, hcolon⟩, hname⟩ := List.forall_mem_cons.1 h
    rw [List.cons_append, placeholdersFrom, if_neg hopen, if_neg hcolon, if_neg hclose]
    exact ih hname (c :: acc)

/-- A closing brace leads outside, whatever stands in front of it. -/
theorem placeholdersFrom_close (cs rest : List Char) : ∀ candidate : Option (List Char),
    placeholdersFrom candidate (cs ++ '}' :: rest) =
      placeholdersFrom candidate (cs ++ ['}']) ++ placeholdersFrom none rest := by
  induction cs with
  | nil =>
    intro candidate
    cases candidate with
    | none => rfl
    | some acc =>
      by_cases hacc : acc = [] <;> simp [placeholdersFrom, hacc]
  | cons c cs ih =>
    intro candidate
    by_cases hopen : c = '{'
    · simp only [List.cons_append, placeholdersFrom, if_pos hopen, ih]
    · cases candidate with
      | none => simp only [List.cons_append, placeholdersFrom, if_neg hopen, ih]
      | some acc =>
        simp only [List.cons_append, placeholdersFrom, if_neg hopen, ih]
        split
        · rfl
        · split
          · split <;> rfl
          · rfl

theorem names_capturing (h : Naming name) (pattern : List Char) :
    Names (capturing name pattern) (placeholdersFrom none (pattern ++ ['}'])) := by
  intro rest
  have text : capturing name pattern ++ rest =
      '{' :: (name ++ ':' :: (pattern ++ '}' :: rest)) := by
    simp [capturing, bare]
  rw [text, placeholdersFrom, if_pos rfl]
  exact (placeholdersFrom_colon h _ []).trans (placeholdersFrom_close pattern rest none)

theorem Names.placeholders_eq {names : List (List Char)} (h : Names cs names) :
    placeholders (String.ofList cs) = names.map String.ofList := by
  have all := h []
  rw [List.append_nil] at all
  rw [placeholders, String.toList_ofList, all]
  exact congrArg _ (List.append_nil names)

/-- What is taken for a name in a piece does not depend on what stands around it. -/
theorem Piece.Valid.names_chars {p : Piece} (h : p.Valid) :
    Names p.chars (p.found.map String.toList) := by
  obtain ⟨names, hnames⟩ : ∃ names, Names p.chars names := by
    cases p with
    | text cs => exact ⟨_, names_of_plain fun c hc => (h.1 c hc).2.1⟩
    | bare name => exact ⟨_, names_bare h.1 h.2⟩
    | capturing name pattern => exact ⟨_, names_capturing h.1 pattern⟩
  have back : names.map (String.toList ∘ String.ofList) = names :=
    (List.map_congr_left fun _ _ => String.toList_ofList).trans (List.map_id _)
  rwa [Piece.found, hnames.placeholders_eq, List.map_map, back]

theorem Piece.Valid.found_eq {p : Piece} (h : p.Valid) (hbraces : ¬ p.HasBraces) :
    p.found = p.plain?.toList := by
  cases p with
  | text cs => exact (names_of_plain fun c hc => (h.1 c hc).2.1).placeholders_eq
  | bare name => exact (names_bare h.1 h.2).placeholders_eq
  | capturing name pattern =>
    have unbraced : '{' ∉ pattern := hbraces
    have plain : ∀ c ∈ pattern ++ ['}'], c ≠ '{' :=
      List.forall_mem_append.2 ⟨fun c hc hopen => unbraced (hopen ▸ hc),
        List.forall_mem_singleton.2 (by decide)⟩
    have none := names_of_plain plain []
    rw [List.append_nil] at none
    rw [Piece.found, Piece.chars, (names_capturing h.1 pattern).placeholders_eq, none]
    rfl

theorem Piece.Valid.plain_sublist {p : Piece} (h : p.Valid) :
    p.plain?.toList.Sublist p.found := by
  by_cases hbraces : p.HasBraces
  · cases p with
    | text => exact hbraces.elim
    | bare => exact hbraces.elim
    | capturing => exact List.nil_sublist _
  · rw [h.found_eq hbraces]

theorem names_written (h : ∀ p ∈ s, p.Valid) :
    Names (written s) ((s.flatMap Piece.found).map String.toList) := by
  induction s with
  | nil => exact names_nil
  | cons p s ih =>
    obtain ⟨hp, hs⟩ := List.forall_mem_cons.1 h
    have both := hp.names_chars.append (ih hs)
    rwa [← List.map_append] at both

theorem names_shownOf (h : ∀ p ∈ s, p.Valid) :
    Names (shownOf s) ((foundIn s).map String.toList) := by
  by_cases hsingle : ∃ p, s = [p]
  · obtain ⟨p, rfl⟩ := hsingle
    exact (h p List.mem_cons_self).names_shown
  · obtain ⟨hshown, -, -, hfound⟩ := parts_of_several hsingle
    rw [hshown, hfound]
    exact names_written h

/-- The names of a segment are found in what is shown of it, and others only between the braces of a
pattern that shares it. -/
theorem namesOf_spec (h : ∀ p ∈ s, p.Valid) : (namesOf s).Sublist (foundIn s) ∧
    ((∀ p ∈ s, p.HasBraces → s = [p]) → foundIn s = namesOf s) := by
  by_cases hsingle : ∃ p, s = [p]
  · obtain ⟨p, rfl⟩ := hsingle
    exact ⟨List.Sublist.refl _, fun _ => rfl⟩
  · obtain ⟨-, -, hnames, hfound⟩ := parts_of_several hsingle
    rw [hnames, hfound, List.filterMap_eq_flatMap_toList]
    refine ⟨List.Sublist.flatMap_right s fun p hp => (h p hp).plain_sublist, fun halone => ?_⟩
    exact List.flatMap_congr fun p hp =>
      (h p hp).found_eq fun hbraces => hsingle ⟨p, halone p hp hbraces⟩

theorem names_under {α : Type} {parts : List α} {shown : α → List Char}
    {names : α → List (List Char)} (h : ∀ a ∈ parts, Names (shown a) (names a)) :
    Names (under (parts.map shown)) (parts.flatMap names) := by
  induction parts with
  | nil => exact names_nil
  | cons a parts ih =>
    obtain ⟨ha, hparts⟩ := List.forall_mem_cons.1 h
    have slash : Names ['/'] [] := names_of_plain (List.forall_mem_singleton.2 (by decide))
    exact (slash.append ha).append (ih hparts)

/-- A template has the names of its segments. -/
theorem placeholders_of_names {path : String} {α : Type} {parts : List α} {shown : α → List Char}
    {names : α → List String} (hpath : templateSegments path = parts.map shown)
    (h : ∀ a ∈ parts, Names (shown a) ((names a).map String.toList)) :
    placeholders (normalize path).text = parts.flatMap names := by
  have read : placeholdersFrom none (shownAs (parts.map shown)) =
      (parts.flatMap names).map String.toList := by
    by_cases hne : parts = []
    · rw [hne]
      rfl
    · have all := names_under h []
      rw [List.append_nil] at all
      rw [shownAs_eq (by simpa using hne), all, List.map_flatMap]
      exact List.append_nil _
  rw [placeholders, toList_normalize, hpath, read, List.map_map]
  exact (List.map_congr_left fun s _ => String.ofList_toList).trans (List.map_id _)

theorem flatMap_filter_ne_nil {α β : Type} [DecidableEq α] {f : List α → List β} (hf : f [] = [])
    (ss : List (List α)) : (ss.filter (· ≠ [])).flatMap f = ss.flatMap f := by
  induction ss with
  | nil => rfl
  | cons s ss ih =>
    by_cases hs : s = []
    · rw [List.filter_cons_of_neg (by simpa using hs), ih, List.flatMap_cons, hs, hf]
      rfl
    · rw [List.filter_cons_of_pos (by simpa using hs), List.flatMap_cons, List.flatMap_cons, ih]

/-- A path of legible segments shows them as they are written, apart from those that are one
placeholder with a pattern, which lose it; a name has the pattern of the last of these. The template
has the names that are declared, in order, apart from those with a pattern that share their segment;
there are no others if the patterns of the latter have no braces. -/
theorem placeholders_normalize {ss : List (List Piece)} {path : String}
    (hvalid : ∀ s ∈ ss, ∀ p ∈ s, p.Valid) (hlegible : ∀ s ∈ ss, Legible s)
    (hpath : trimChars path.toList = writtenPath ss) :
    (normalize path).text = String.ofList (shownAs ((ss.filter (· ≠ [])).map shownOf)) ∧
      (normalize path).patterns.Distinct ∧
      (∀ name, (normalize path).patterns.get? name =
        Table.lastAt (ss.filterMap declaredBy) name) ∧
      (ss.flatMap namesOf).Sublist (placeholders (normalize path).text) ∧
      ((∀ s ∈ ss, ∀ p ∈ s, p.HasBraces → s = [p]) →
        placeholders (normalize path).text = ss.flatMap namesOf) := by
  have parts : pathSegments path = (ss.filter (· ≠ [])).map written := by
    rw [pathSegments, hpath, solid_writtenPath hvalid]
  have mem (s : List Piece) (hs : s ∈ ss.filter (· ≠ [])) : s ∈ ss := List.mem_of_mem_filter hs
  have read (s : List Piece) (hs : s ∈ ss.filter (· ≠ [])) :=
    readSegment_written (hvalid s (mem s hs)) (hlegible s (mem s hs))
  have shown : templateSegments path = (ss.filter (· ≠ [])).map shownOf := by
    rw [templateSegments_eq, parts, List.map_map]
    exact List.map_congr_left fun s hs => (read s hs).1
  have names : placeholders (normalize path).text = ss.flatMap foundIn := by
    rw [placeholders_of_names shown fun s hs => names_shownOf (hvalid s (mem s hs))]
    have empty : foundIn [] = [] := rfl
    exact flatMap_filter_ne_nil empty ss
  have declared : (ss.filter (· ≠ [])).filterMap declaredBy = ss.filterMap declaredBy := by
    rw [List.filterMap_filter]
    exact List.filterMap_congr fun s _ => by cases s <;> rfl
  refine ⟨?_, distinct_patterns path, fun name => ?_, ?_, fun halone => ?_⟩
  · rw [← shown, ← toList_normalize, String.ofList_toList]
  · rw [get?_patterns parts fun s hs => (read s hs).2, declared]
  · rw [names]
    exact List.Sublist.flatMap_right ss fun s hs => (namesOf_spec (hvalid s hs)).1
  · rw [names]
    exact List.flatMap_congr fun s hs => (namesOf_spec (hvalid s hs)).2 (halone s hs)

/-- A version whose second number has a pattern and is lost, an id with braces in its pattern, and a
range of names. -/
theorem placeholders_normalize_versions :
    placeholders (normalize " v{major}.{minor:[0-9]}/{id:[0-9]{2}}//{a}-{b}/{ id : x/y }").text =
        ["major", "id", "a", "b", "id"] ∧
      (normalize
        " v{major}.{minor:[0-9]}/{id:[0-9]{2}}//{a}-{b}/{ id : x/y }").patterns.get? "id" =
          some "x/y" := by
  let ss : List (List Piece) := [
    [.text "v".toList, .bare "major".toList, .text ".".toList,
      .capturing "minor".toList "[0-9]".toList],
    [.capturing "id".toList "[0-9]{2}".toList],
    [],
    [.bare "a".toList, .text "-".toList, .bare "b".toList],
    [.capturing " id ".toList " x/y ".toList]]
  have valid : ∀ s ∈ ss, ∀ p ∈ s, p.Valid := by decide +kernel
  have legible : ∀ s ∈ ss, Legible s := by decide +kernel
  have alone : ∀ s ∈ ss, ∀ p ∈ s, p.HasBraces → s = [p] := by decide +kernel
  have text : trimChars " v{major}.{minor:[0-9]}/{id:[0-9]{2}}//{a}-{b}/{ id : x/y }".toList =
      writtenPath ss := by
    decide +kernel
  obtain ⟨-, -, patterns, -, names⟩ := placeholders_normalize valid legible text
  rw [names alone, patterns]
  decide +kernel

/-- A placeholder with a pattern behind other text is not read: its name and pattern are lost. -/
theorem version_unread :
    (∀ s ∈ [[], [Piece.text "v".toList, .capturing "major".toList "[0-9]+".toList]],
      ∀ p ∈ s, p.Valid) ∧
    writtenPath [[], [.text "v".toList, .capturing "major".toList "[0-9]+".toList]] =
      "/v{major:[0-9]+}".toList ∧
    placeholders (normalize "/v{major:[0-9]+}").text = [] ∧
    (normalize "/v{major:[0-9]+}").patterns.get? "major" = none := by
  decide +kernel

end ApiCompiler.Path
