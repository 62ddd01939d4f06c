import Mathlib.Data.List.Flatten
import ApiCompiler.Proofs.Segments

/-!
# Templates read again

What the template of a path consists of, and what is left of it when it is normalised once more. A
second pass finds the segments of the template whole, but it takes blanks from behind the last one,
and it can find a pattern where a name in front of a colon has left a brace open.
-/

set_option autoImplicit false

namespace ApiCompiler

theorem Table.eq_nil_of_ofList {α : Type} {entries : List (String × α)}
    (h : Table.ofList entries = []) : entries = [] := by
  cases entries with
  | nil => rfl
  | cons e entries =>
    obtain ⟨key, v⟩ := e
    have written : (Table.ofList ((key, v) :: entries)).has key :=
      Table.has_merge.2 (.inr (by simp [Table.has, Table.get?_cons]))
    rw [h] at written
    cases written

namespace Path

open Text (trimChars)

variable {cs name pattern : List Char} {depth : Nat} {ss : List (List Char)}

/-! ### Reading a segment -/

theorem enclosed_capturing (name pattern : List Char) : Enclosed (capturing name pattern) :=
  ⟨rfl, List.getLast?_concat, by simp [capturing, bare]⟩

theorem Enclosed.exists_capturing (h : Enclosed cs) :
    ∃ name pattern, ':' ∉ name ∧ cs = capturing name pattern := by
  obtain ⟨hfirst, hlast, hcolon⟩ := h
  obtain ⟨more, rfl⟩ := List.head?_eq_some_iff.1 hfirst
  have inside : ':' ∈ more := (List.mem_cons.1 hcolon).resolve_left (by decide)
  obtain ⟨name, rest, rfl, hname⟩ := List.eq_append_cons_of_mem inside
  refine ⟨name, ?_⟩
  have last : (':' :: rest).getLast? = some '}' := by
    rwa [← List.cons_append, List.getLast?_append_of_ne_nil _ (List.cons_ne_nil _ _)] at hlast
  cases rest with
  | nil => cases last
  | cons c rest =>
    rw [List.getLast?_cons_cons] at last
    obtain ⟨pattern, hpattern⟩ := List.getLast?_eq_some_iff.1 last
    exact ⟨pattern, hname, by simp [capturing, bare, hpattern]⟩

/-- A segment is shown as it is, or it shows a name and captures a pattern. -/
theorem readSegment_cases (cs : List Char) :
    readSegment cs = ⟨cs, none⟩ ∧ ¬ Enclosed cs ∨
      ∃ name pattern, ':' ∉ name ∧ cs = capturing name pattern ∧
        readSegment cs = ⟨bare (trimChars name), some (trimChars name, trimChars pattern)⟩ := by
  by_cases h : Enclosed cs
  · obtain ⟨name, pattern, hname, rfl⟩ := h.exists_capturing
    exact .inr ⟨name, pattern, hname, rfl, readSegment_capturing hname pattern⟩
  · exact .inl ⟨readSegment_of_not_enclosed h, h⟩

/-- Only segments between braces with a colon capture. -/
theorem captured_eq_none_iff : (readSegment cs).captured = none ↔ ¬ Enclosed cs := by
  rcases readSegment_cases cs with ⟨hread, h⟩ | ⟨name, pattern, hname, rfl, hread⟩
  · rw [hread]
    exact iff_of_true rfl h
  · rw [hread]
    exact iff_of_false (Option.some_ne_none _) (not_not_intro (enclosed_capturing name pattern))

theorem not_enclosed_bare (h : ':' ∉ name) : ¬ Enclosed (bare name) := by
  rintro ⟨-, -, hcolon⟩
  rcases List.mem_append.1 ((List.mem_cons.1 hcolon).resolve_left (by decide)) with hc | hc
  · exact h hc
  · exact absurd (List.mem_singleton.1 hc) (by decide)

theorem not_endsBlank_bare (name : List Char) : ¬ EndsBlank (bare name) := by
  rintro ⟨c, hc, blank⟩
  rw [bare, List.getLast?_concat] at hc
  cases hc
  exact absurd blank (by decide)

theorem not_enclosed_of_endsBlank (h : EndsBlank cs) : ¬ Enclosed cs := by
  rintro ⟨-, hlast, -⟩
  obtain ⟨c, hc, blank⟩ := h
  cases hlast.symm.trans hc
  exact absurd blank (by decide)

/-- What a segment shows captures nothing. -/
theorem not_enclosed_shown (cs : List Char) : ¬ Enclosed (readSegment cs).shown := by
  rcases readSegment_cases cs with ⟨hread, h⟩ | ⟨name, pattern, hname, rfl, hread⟩
  · rw [hread]
    exact h
  · rw [hread]
    exact not_enclosed_bare fun hc => hname (mem_trimChars hc)

theorem map_shown_of_not_enclosed (h : ∀ s ∈ ss, ¬ Enclosed s) :
    ss.map (fun s => (readSegment s).shown) = ss := by
  conv_rhs => rw [← List.map_id ss]
  refine List.map_congr_left fun s hs => ?_
  rw [readSegment_of_not_enclosed (h s hs)]
  rfl

theorem shown_ne_nil (h : cs ≠ []) : (readSegment cs).shown ≠ [] := by
  rcases readSegment_cases cs with ⟨hread, -⟩ | ⟨name, pattern, -, -, hread⟩
  · rw [hread]
    exact h
  · rw [hread]
    exact List.cons_ne_nil _ _

theorem endsBlank_shown : EndsBlank (readSegment cs).shown ↔ EndsBlank cs := by
  rcases readSegment_cases cs with ⟨hread, -⟩ | ⟨name, pattern, -, rfl, hread⟩
  · rw [hread]
  · rw [hread]
    exact iff_of_false (not_endsBlank_bare _) (not_endsBlank_bare _)

/-- Blanks around a name neither separate nor open or close a brace. -/
theorem whole_trimChars (h : Whole depth cs) :
    Whole depth (trimChars cs) ∧ openedBy depth (trimChars cs) = openedBy depth cs := by
  obtain ⟨before, after, hcs, blank, blank'⟩ := exists_blanks_around cs
  have hbefore := openedBy_of_blank blank depth
  have hafter := openedBy_of_blank blank' (openedBy depth (trimChars cs))
  generalize trimChars cs = trimmed at hcs hafter
  subst hcs
  rw [List.append_assoc, whole_append, hbefore, whole_append] at h
  refine ⟨h.2.1, ?_⟩
  rw [openedBy_append, openedBy_append, hbefore, hafter]

/-- What a whole segment shows is whole. -/
theorem whole_shown (h : Whole 0 cs) : Whole 0 (readSegment cs).shown := by
  rcases readSegment_cases cs with ⟨hread, -⟩ | ⟨name, pattern, -, rfl, hread⟩
  · rw [hread]
    exact h
  · rw [hread]
    have text : capturing name pattern = ('{' :: name) ++ (':' :: pattern ++ ['}']) := by
      simp [capturing, bare]
    rw [text, whole_append] at h
    have inside : Whole 1 name := h.1.2
    exact whole_bare.2 (whole_trimChars inside).1

/-- How many braces are open in front of the first colon. -/
def openAtColon (cs : List Char) : Nat := openedBy 0 (cs.takeWhile (· ≠ ':'))

theorem openAtColon_capturing (h : ':' ∉ name) (pattern : List Char) :
    openAtColon (capturing name pattern) = openedBy 1 name := by
  have text : capturing name pattern = ('{' :: name) ++ ':' :: (pattern ++ ['}']) := by
    simp [capturing, bare]
  have front : ∀ c ∈ '{' :: name, decide (c ≠ ':') = true := by
    intro c hc
    rcases List.mem_cons.1 hc with rfl | hc
    · decide
    · exact decide_eq_true fun hcolon => h (hcolon ▸ hc)
  rw [openAtColon, text, List.takeWhile_append_of_pos front,
    List.takeWhile_cons_of_neg (by decide), List.append_nil]
  rfl

/-- What a segment shows closes its braces where the segment does, if in front of a colon it leaves
no more than one open. -/
theorem closed_shown (h : Whole 0 cs) (hclosed : Closed cs)
    (hcolon : Enclosed cs → openAtColon cs ≤ 1) : Closed (readSegment cs).shown := by
  rcases readSegment_cases cs with ⟨hread, -⟩ | ⟨name, pattern, hname, rfl, hread⟩
  · rw [hread]
    exact hclosed
  · rw [hread]
    have text : capturing name pattern = ('{' :: name) ++ (':' :: pattern ++ ['}']) := by
      simp [capturing, bare]
    rw [text, whole_append] at h
    have inside : Whole 1 name := h.1.2
    have one := hcolon (enclosed_capturing name pattern)
    rw [openAtColon_capturing hname] at one
    show openedBy 0 (bare (trimChars name)) = 0
    rw [openedBy_bare, (whole_trimChars inside).2]
    omega

/-! ### The template of a path -/

/-- The segments of a path that are read: those of the trimmed path that are not empty. -/
def pathSegments (path : String) : List (List Char) := solid (trimChars path.toList)

/-- The segments of the template of a path. -/
def templateSegments (path : String) : List (List Char) :=
  (readSegments path.toList).map Segment.shown

theorem templateSegments_eq (path : String) :
    templateSegments path = (pathSegments path).map fun s => (readSegment s).shown :=
  List.map_map

theorem toList_normalize (path : String) :
    (normalize path).text.toList = shownAs (templateSegments path) :=
  String.toList_ofList

theorem whole_of_mem_pathSegments {path : String} {s : List Char} (h : s ∈ pathSegments path) :
    Whole 0 s :=
  (cut_segments 0 _).forall_whole s (List.mem_of_mem_filter h)

theorem templateSegments_spec (path : String) :
    ∀ s ∈ templateSegments path, s ≠ [] ∧ Whole 0 s ∧ ¬ Enclosed s := by
  intro s hs
  rw [templateSegments_eq] at hs
  obtain ⟨t, ht, rfl⟩ := List.mem_map.1 hs
  have hne : t ≠ [] := by simpa using (List.mem_filter.1 ht).2
  exact ⟨shown_ne_nil hne, whole_shown (whole_of_mem_pathSegments ht), not_enclosed_shown t⟩

theorem mem_dropLast_of_filter {α : Type} {p : α → Bool} {l : List α} {a : α}
    (h : a ∈ (l.filter p).dropLast) : a ∈ l.dropLast := by
  rcases List.eq_nil_or_concat l with rfl | ⟨init, last, rfl⟩
  · exact h
  · rw [List.concat_eq_append] at h ⊢
    rw [List.dropLast_concat]
    rw [List.filter_append] at h
    by_cases hp : p last = true
    · rw [List.filter_cons_of_pos hp, List.filter_nil, List.dropLast_concat] at h
      exact List.mem_of_mem_filter h
    · rw [List.filter_cons_of_neg hp, List.filter_nil, List.append_nil] at h
      exact List.mem_of_mem_filter ((List.dropLast_sublist _).subset h)

theorem closed_of_mem_dropLast {path : String} {s : List Char}
    (h : s ∈ (pathSegments path).dropLast) : Closed s :=
  (cut_segments 0 _).closed_dropLast s (mem_dropLast_of_filter h)

/-- A template ends with a blank where the last segment of its path does. -/
theorem endsBlank_normalize (path : String) : EndsBlank (normalize path).text.toList ↔
    ∃ s, (pathSegments path).getLast? = some s ∧ EndsBlank s := by
  rw [toList_normalize, templateSegments_eq]
  rcases List.eq_nil_or_concat (pathSegments path) with hnil | ⟨init, last, hconcat⟩
  · rw [hnil]
    refine iff_of_false ?_ (fun ⟨s, hs, _⟩ => by cases hs)
    rintro ⟨c, hc, blank⟩
    cases hc
    exact absurd blank (by decide)
  · have mem : last ∈ pathSegments path := by
      rw [hconcat, List.concat_eq_append]
      exact List.mem_append_right _ List.mem_cons_self
    have hne : last ≠ [] := by simpa using (List.mem_filter.1 mem).2
    rw [hconcat, List.concat_eq_append, List.getLast?_concat, List.map_append, List.map_singleton,
      shownAs_eq (by simp), under, List.flatMap_append, List.flatMap_singleton,
      endsBlank_append (List.cons_ne_nil _ _), ← List.singleton_append,
      endsBlank_append (shown_ne_nil hne), endsBlank_shown]
    simp

/-! ### Splitting a template -/

/-- However many braces are open, joined segments are not split into empty ones. -/
theorem nil_not_mem_segments (h : ∀ s ∈ ss, s ≠ [] ∧ Whole 0 s) (hne : ss ≠ []) (depth : Nat) :
    [] ∉ segments depth (List.intercalate ['/'] ss) := by
  induction ss generalizing depth with
  | nil => exact absurd rfl hne
  | cons s ss ih =>
    obtain ⟨⟨hs, hwhole⟩, hss⟩ := List.forall_mem_cons.1 h
    have hwhole : Whole depth s := hwhole.mono (Nat.zero_le depth)
    cases ss with
    | nil =>
      rw [List.intercalate_singleton, segments_of_whole hwhole]
      simpa using hs.symm
    | cons s' ss =>
      have ih := ih hss (List.cons_ne_nil _ _)
      have joined : List.intercalate ['/'] (s :: s' :: ss) =
          s ++ '/' :: List.intercalate ['/'] (s' :: ss) := by
        simp [List.intercalate_cons_cons]
      rw [joined]
      generalize List.intercalate ['/'] (s' :: ss) = rest at ih
      have slash : opened (openedBy depth s) '/' = openedBy depth s := rfl
      by_cases hclosed : openedBy depth s = 0
      · have behind : segments (openedBy depth s) ('/' :: rest) = [] :: segments 0 rest := by
          rw [segments_cons, slash, hclosed, if_pos ⟨rfl, rfl⟩]
        rw [segments_whole_append hwhole behind, List.append_nil]
        exact List.not_mem_cons_of_ne_of_not_mem hs.symm (ih 0)
      · -- the slash does not separate here, and begins what is added to the part
        obtain ⟨first, others, hrest⟩ := List.exists_cons_of_ne_nil
          (segments_ne_nil (openedBy depth s) rest)
        have behind : segments (openedBy depth s) ('/' :: rest) = ('/' :: first) :: others := by
          rw [segments_cons, slash, if_neg fun hc => hclosed hc.2, hrest]
        have ih := ih (openedBy depth s)
        rw [hrest] at ih
        rw [segments_whole_append hwhole behind]
        exact List.not_mem_cons_of_ne_of_not_mem (by simp) (List.not_mem_of_not_mem_cons ih)

/-- A template is joined from what it is split into. -/
theorem shownAs_solid_shownAs (h : ∀ s ∈ ss, s ≠ [] ∧ Whole 0 s) :
    shownAs (solid (shownAs ss)) = shownAs ss := by
  by_cases hne : ss = []
  · rw [hne]
    rfl
  · have full : solid (shownAs ss) = segments 0 (List.intercalate ['/'] ss) := by
      rw [shownAs, solid_slash, solid]
      refine List.filter_eq_self.2 fun s hs => ?_
      have hs : s ≠ [] := fun hnil => nil_not_mem_segments h hne 0 (hnil ▸ hs)
      simpa using hs
    rw [full, shownAs, intercalate_segments]
    rfl

/-- What is left of a path without its empty segments is no longer than the path. -/
theorem length_shownAs_solid_le (cs : List Char) :
    (shownAs (solid ('/' :: cs))).length ≤ ('/' :: cs).length := by
  rw [solid_slash, solid]
  have all : ('/' :: cs) = under (segments 0 cs) := by
    rw [← shownAs_eq (segments_ne_nil 0 cs), shownAs, intercalate_segments]
  have fewer : (under ((segments 0 cs).filter (· ≠ []))).length ≤ (under (segments 0 cs)).length :=
    (List.filter_sublist.flatMap _).length_le
  rw [← all] at fewer
  by_cases hne : (segments 0 cs).filter (· ≠ []) = []
  · rw [hne]
    simp [shownAs]
  · rw [shownAs_eq hne]
    exact fewer

/-! ### Normalising once more -/

/-- The second pass captures nothing exactly if no segment that it reads is enclosed. -/
theorem patterns_eq_nil_iff (path : String) :
    (normalize path).patterns = [] ↔ ∀ s ∈ pathSegments path, ¬ Enclosed s := by
  rw [patterns_normalize]
  constructor
  · intro h s hs
    have none := List.filterMap_eq_nil_iff.1 (Table.eq_nil_of_ofList h) s hs
    exact captured_eq_none_iff.1 (Option.map_eq_none_iff.1 none)
  · intro h
    have none : capturedBy (pathSegments path) = [] :=
      List.filterMap_eq_nil_iff.2 fun s hs => by rw [captured_eq_none_iff.2 (h s hs)]; rfl
    exact (congrArg Table.ofList none).trans rfl

/-- Where nothing is captured, the segments of a path are shown as they are. -/
theorem templateSegments_of_not_enclosed {path : String}
    (h : ∀ s ∈ pathSegments path, ¬ Enclosed s) : templateSegments path = pathSegments path :=
  (templateSegments_eq path).trans (map_shown_of_not_enclosed h)

/-- A path that does not end with a blank is not trimmed. -/
theorem pathSegments_of_not_endsBlank {path : String} (hpath : path.toList = '/' :: cs)
    (h : ¬ EndsBlank path.toList) : pathSegments path = solid path.toList := by
  rw [pathSegments, hpath, trimChars_eq_self_iff.2 (hpath ▸ h)]

theorem normalize_of_not_enclosed {path : String} (hpath : path.toList = '/' :: cs)
    (hblank : ¬ EndsBlank path.toList) (h : ∀ s ∈ solid path.toList, ¬ Enclosed s)
    (hjoined : shownAs (solid path.toList) = path.toList) :
    (normalize path).text = path ∧ (normalize path).patterns = [] := by
  rw [← pathSegments_of_not_endsBlank hpath hblank] at h hjoined
  refine ⟨String.toList_injective ?_, (patterns_eq_nil_iff path).2 h⟩
  rw [toList_normalize, templateSegments_of_not_enclosed h, hjoined]

/-- A path that ends with a blank loses it, and nothing makes up for that. -/
theorem not_endsBlank_of_normalize {path : String} (hpath : path.toList = '/' :: cs)
    (htext : (normalize path).text = path) (hpatterns : (normalize path).patterns = []) :
    ¬ EndsBlank path.toList := by
  intro hblank
  obtain ⟨rest, hrest, -, hends⟩ := exists_blanks_behind cs
  obtain ⟨more, hmore⟩ := exists_trimmed cs
  have hne : rest ≠ [] := hends.1 (hpath ▸ hblank)
  have same : shownAs (pathSegments path) = path.toList := by
    rw [← templateSegments_of_not_enclosed ((patterns_eq_nil_iff path).1 hpatterns),
      ← toList_normalize, htext]
  -- what is left without the blanks is too short to be the path
  have short := length_shownAs_solid_le more
  have long := congrArg List.length hrest
  have some := List.length_pos_iff.2 hne
  rw [pathSegments, hpath, hmore] at same
  rw [same] at short
  rw [hmore, List.length_append] at long
  omega

/-- All but the last closing their braces, the segments of a template are found again. -/
theorem solid_shownAs (h : ∀ s ∈ ss, s ≠ [] ∧ Whole 0 s) (hclosed : ∀ s ∈ ss.dropLast, Closed s) :
    solid (shownAs ss) = ss := by
  by_cases hne : ss = []
  · rw [hne]
    rfl
  · have cut : Cut 0 ss := cut_of_forall hne (fun s hs => (h s hs).2) hclosed
    rw [shownAs, solid_slash, solid, cut.segments_intercalate]
    exact List.filter_eq_self.2 fun s hs => by simpa using (h s hs).1

theorem closed_templateSegments {path : String}
    (h : ∀ s ∈ (pathSegments path).dropLast, Enclosed s → openAtColon s ≤ 1) :
    ∀ s ∈ (templateSegments path).dropLast, Closed s := by
  intro s hs
  rw [templateSegments_eq, ← List.map_dropLast] at hs
  obtain ⟨t, ht, rfl⟩ := List.mem_map.1 hs
  have whole := whole_of_mem_pathSegments ((List.dropLast_sublist _).subset ht)
  exact closed_shown whole (closed_of_mem_dropLast ht) (h t ht)

/-- A template is left alone by a second pass exactly if the last segment of its path does not end
with a blank and no segment of the template captures. The latter is so if no segment but the last
has more than one brace open in front of its colon. -/
theorem normalize_normalize_iff (path : String) :
    ((normalize (normalize path).text).text = (normalize path).text ∧
        (normalize (normalize path).text).patterns = [] ↔
      (∀ s, (pathSegments path).getLast? = some s → ¬ EndsBlank s) ∧
        ∀ s ∈ solid (normalize path).text.toList, ¬ Enclosed s) ∧
    ((∀ s ∈ (pathSegments path).dropLast, Enclosed s → openAtColon s ≤ 1) →
      ∀ s ∈ solid (normalize path).text.toList, ¬ Enclosed s) := by
  have text := toList_normalize path
  have spec := templateSegments_spec path
  have parts : ∀ s ∈ templateSegments path, s ≠ [] ∧ Whole 0 s :=
    fun s hs => ⟨(spec s hs).1, (spec s hs).2.1⟩
  have blank : (∀ s, (pathSegments path).getLast? = some s → ¬ EndsBlank s) ↔
      ¬ EndsBlank (normalize path).text.toList := by
    rw [endsBlank_normalize, not_exists]
    exact forall_congr' fun s => not_and.symm
  rw [blank]
  refine ⟨⟨?_, ?_⟩, ?_⟩
  · rintro ⟨htext, hpatterns⟩
    have hblank := not_endsBlank_of_normalize text htext hpatterns
    refine ⟨hblank, ?_⟩
    rw [← pathSegments_of_not_endsBlank text hblank]
    exact (patterns_eq_nil_iff _).1 hpatterns
  · rintro ⟨hblank, h⟩
    refine normalize_of_not_enclosed text hblank h ?_
    rw [text]
    exact shownAs_solid_shownAs parts
  · intro h
    rw [text, solid_shownAs parts (closed_templateSegments h)]
    exact fun s hs => (spec s hs).2.2

/-- The name of a number has no brace, so the template stays as it is. -/
theorem normalize_normalize_iff_numbers :
    (normalize "//a/{id:[0-9]{2}}/x/").text = "/a/{id}/x" ∧
      (normalize (normalize "//a/{id:[0-9]{2}}/x/").text).text =
        (normalize "//a/{id:[0-9]{2}}/x/").text ∧
      (normalize (normalize "//a/{id:[0-9]{2}}/x/").text).patterns = [] := by
  obtain ⟨hiff, hnames⟩ := normalize_normalize_iff "//a/{id:[0-9]{2}}/x/"
  have parts : pathSegments "//a/{id:[0-9]{2}}/x/" =
      ["a".toList, capturing "id".toList "[0-9]{2}".toList, "x".toList] := by decide +kernel
  refine ⟨by decide +kernel, hiff.2 ⟨?_, hnames ?_⟩⟩
  · rw [parts]
    intro s hs
    obtain rfl := Option.some.inj hs
    decide
  · rw [parts]
    decide

/-- A blank in front of the final slash is part of the template, and is lost with the next pass. -/
theorem template_loses_blank : (normalize "a /").text = "/a " ∧
    (normalize (normalize "a /").text).text = "/a" := by
  decide +kernel

-- A name that leaves a brace open keeps the next slashes from separating, and what follows is taken
-- for its pattern.
example : (normalize "/\x7b\x7ba:b\x7d\x7d/x:y/{d}").text = "/\x7b\x7ba\x7d/x:y/{d}" ∧
    (normalize "/\x7b\x7ba\x7d/x:y/{d}").text = "/\x7b\x7ba\x7d/x\x7d" := by
  decide +kernel

end Path

end ApiCompiler
