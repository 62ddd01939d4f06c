import ApiCompiler.Proofs.Templates

/-!
# Composition of paths

What a composed path consists of: the segments of the template in front, of the class fragment and
of the method fragment, each where it belongs. Two things can come between. A class fragment without
a leading slash is glued to the template in front of it, and a composed path that ends with a blank
loses the blanks at its end.
-/

set_option autoImplicit false

namespace ApiCompiler.Path

open Text (trimChars isBlank)

variable {cs front rest fragment : List Char} {ss : List (List Char)}

/-! ### Slashes at the end -/

theorem solid_concat_slash (h : Closed front) : solid (front ++ ['/']) = solid front := by
  rw [solid_append h]
  exact List.append_nil _

theorem closed_of_append_slashes (hrest : ∀ c ∈ rest, c = '/') (h : Closed (front ++ rest)) :
    Closed front := by
  have plain : ∀ c ∈ rest, c ≠ '{' ∧ c ≠ '}' := fun c hc => by
    rw [hrest c hc]
    decide
  unfold Closed at *
  rwa [openedBy_append, openedBy_of_plain plain] at h

theorem solid_append_slashes (h : Closed front) (hrest : ∀ c ∈ rest, c = '/') :
    solid (front ++ rest) = solid front := by
  induction rest generalizing front with
  | nil => rw [List.append_nil]
  | cons c rest ih =>
    obtain ⟨rfl, hmore⟩ := List.forall_mem_cons.1 hrest
    rw [← List.singleton_append, ← List.append_assoc, ih (h.append closed_slash) hmore]
    exact solid_concat_slash h

/-- Slashes that are dropped at the end are separators. -/
theorem dropFinalSlashes_spec (h : Closed cs) :
    Closed (dropFinalSlashes cs) ∧ solid (dropFinalSlashes cs) = solid cs := by
  obtain ⟨slashes, hcs, hs⟩ := exists_dropEndWhile (· == '/') cs
  have hs : ∀ c ∈ slashes, c = '/' := fun c hc => beq_iff_eq.1 (hs c hc)
  have closed : Closed (dropFinalSlashes cs) := by
    rw [hcs] at h
    exact closed_of_append_slashes hs h
  refine ⟨closed, ?_⟩
  conv_rhs => rw [hcs]
  exact (solid_append_slashes closed hs).symm

theorem solid_close (h : Closed cs) : solid (close cs) = solid cs := by
  obtain ⟨all, hall, hsolid, hclosed⟩ : ∃ all, (if cs.head? = some '/' then cs else '/' :: cs) =
      all ∧ solid all = solid cs ∧ Closed all := by
    split
    · exact ⟨cs, rfl, rfl, h⟩
    · exact ⟨'/' :: cs, rfl, solid_slash cs, h⟩
  rw [close, hall, ← hsolid]
  split
  · rename_i hlast
    obtain ⟨front, rfl⟩ := List.getLast?_eq_some_iff.1 hlast.2
    have closed : Closed front :=
      closed_of_append_slashes (fun c hc => List.mem_singleton.1 hc) hclosed
    rw [List.dropLast_concat, solid_concat_slash closed]
  · rfl

/-- A method fragment is always separated from what it is appended to. -/
theorem appendFragment_spec (h : Closed front) (hfragment : Closed fragment) :
    Closed (appendFragment front fragment) ∧
      solid (appendFragment front fragment) = solid front ++ solid fragment := by
  obtain ⟨hclosed, hsolid⟩ := dropFinalSlashes_spec hfragment
  rw [← hsolid, appendFragment]
  split
  · rename_i hroot
    rw [hroot]
    exact ⟨h, (List.append_nil _).symm⟩
  · split
    · refine ⟨(h.append closed_slash).append hclosed, ?_⟩
      rw [List.append_assoc]
      exact solid_append h _
    · rename_i hslash
      refine ⟨h.append hclosed, ?_⟩
      by_cases hlast : front.getLast? = some '/'
      · obtain ⟨before, rfl⟩ := List.getLast?_eq_some_iff.1 hlast
        have closed : Closed before :=
          closed_of_append_slashes (fun c hc => List.mem_singleton.1 hc) h
        rw [solid_concat_slash closed, List.append_assoc]
        exact solid_append closed _
      · have hfirst : fragment.head? = some '/' := by
          by_contra hfirst
          exact hslash ⟨hfirst, hlast⟩
        obtain ⟨slashes, hfragments, -⟩ := exists_dropEndWhile (· == '/') fragment
        change fragment = dropFinalSlashes fragment ++ slashes at hfragments
        cases hdropped : dropFinalSlashes fragment with
        | nil => simp [solid, segments]
        | cons c more =>
          rw [hfragments, hdropped] at hfirst
          obtain rfl := Option.some.inj hfirst
          rw [solid_append h, solid_slash]

/-! ### A class fragment behind a template -/

/-- A fragment that is not separated from what stands in front of it. -/
def Relative (fragment : List Char) : Prop := fragment ≠ [] ∧ fragment.head? ≠ some '/'

instance (fragment : List Char) : Decidable (Relative fragment) :=
  inferInstanceAs (Decidable (_ ∧ _))

theorem solid_append_fragment (h : Closed front) (hfragment : front = [] ∨ ¬ Relative fragment) :
    solid (front ++ fragment) = solid front ++ solid fragment := by
  cases fragment with
  | nil => simp [solid, segments]
  | cons c fragment =>
    rcases hfragment with rfl | hslash
    · rfl
    · have slash : c = '/' := by
        by_contra hne
        exact hslash ⟨List.cons_ne_nil _ _, fun hc => hne (Option.some.inj hc)⟩
      rw [slash, solid_append h, solid_slash]

/-- Glued to a template, a fragment has one segment less. -/
theorem length_solid_glued (h : ∀ s ∈ ss, Sealed s) (hne : ss ≠ [])
    (hfragment : Relative fragment) :
    (solid (under ss ++ fragment)).length + 1 = ss.length + (solid fragment).length := by
  obtain ⟨init, last, rfl⟩ := (List.eq_nil_or_concat' ss).resolve_left hne
  obtain ⟨hinit, hlast⟩ := List.forall_mem_append.1 h
  have hlast : Sealed last := hlast last List.mem_cons_self
  have text : under (init ++ [last]) ++ fragment = under init ++ '/' :: (last ++ fragment) := by
    simp [under]
  obtain ⟨c, more, rfl⟩ := List.exists_cons_of_ne_nil hfragment.1
  have hc : ¬ (c = '/' ∧ opened 0 c = 0) := fun hc => hfragment.2 (congrArg some hc.1)
  obtain ⟨first, others, hfirst⟩ : ∃ first others,
      segments 0 (c :: more) = (c :: first) :: others := by
    obtain ⟨s, ss, hs⟩ := List.exists_cons_of_ne_nil (segments_ne_nil (opened 0 c) more)
    exact ⟨s, ss, by rw [segments_cons, if_neg hc, hs]⟩
  have glued : segments 0 (last ++ c :: more) = (last ++ c :: first) :: others := by
    refine segments_whole_append hlast.whole ?_
    rw [hlast.closed]
    exact hfirst
  have kept (s : List Char) (hs : s ≠ []) : (s :: others).filter (· ≠ []) =
      s :: others.filter (· ≠ []) := List.filter_cons_of_pos (by simpa using hs)
  rw [text, solid_under hinit, solid, solid, glued, hfirst, kept _ (by simp), kept _ (by simp)]
  simp only [List.length_append, List.length_cons, List.length_nil]
  omega

/-! ### Trimming a composed path -/

/-- Blanks that are taken from the end of a path are those of its last segment. -/
theorem exists_solid_trimmed (cs : List Char) : ∃ init last blanks,
    solid (trimChars ('/' :: cs)) = init ++ [last].filter (· ≠ []) ∧
      solid ('/' :: cs) = init ++ [last ++ blanks].filter (· ≠ []) ∧
      (∀ c ∈ blanks, isBlank c = true) ∧ (EndsBlank ('/' :: cs) ↔ blanks ≠ []) := by
  obtain ⟨blanks, htrimmed, blank, hends⟩ := exists_blanks_behind cs
  obtain ⟨init, last, hshort, hlong⟩ :=
    segments_append_of_plain (fun c hc => ne_of_isBlank (blank c hc)) 0 (trimChars ('/' :: cs))
  rw [← htrimmed] at hlong
  refine ⟨init.filter (· ≠ []), last, blanks, ?_, ?_, blank, hends⟩
  · rw [solid, hshort, List.filter_append]
  · rw [solid, hlong, List.filter_append]

theorem length_solid_trimmed_le (cs : List Char) :
    (solid (trimChars ('/' :: cs))).length ≤ (solid ('/' :: cs)).length := by
  obtain ⟨init, last, blanks, hshort, hlong, -, -⟩ := exists_solid_trimmed cs
  rw [hshort, hlong, List.length_append, List.length_append]
  by_cases hlast : last = []
  · simp [hlast]
  · simp [hlast]

/-- A path shows the same segments with its blanks at the end only if there are none. -/
theorem map_shown_trimmed_iff (cs : List Char) :
    (solid (trimChars ('/' :: cs))).map (fun s => (readSegment s).shown) =
        (solid ('/' :: cs)).map (fun s => (readSegment s).shown) ↔ ¬ EndsBlank ('/' :: cs) := by
  constructor
  · intro h hends
    obtain ⟨init, last, blanks, hshort, hlong, blank, hblank⟩ := exists_solid_trimmed cs
    have hne : blanks ≠ [] := hblank.1 hends
    have ends : EndsBlank (last ++ blanks) := by
      rw [endsBlank_append hne]
      obtain ⟨c, hc⟩ := Option.ne_none_iff_exists'.1 (mt List.getLast?_eq_none_iff.1 hne)
      exact ⟨c, hc, blank c (List.mem_of_getLast? hc)⟩
    have kept : [last ++ blanks].filter (· ≠ []) = [last ++ blanks] :=
      List.filter_cons_of_pos (by simp [hne])
    rw [hshort, hlong, kept, List.map_append, List.map_append, List.append_cancel_left_eq,
      List.map_singleton, readSegment_of_not_enclosed (not_enclosed_of_endsBlank ends)] at h
    by_cases hlast : last = []
    · simp [hlast] at h
    · rw [List.filter_cons_of_pos (by simpa using hlast), List.filter_nil, List.map_singleton] at h
      have same : (readSegment last).shown = last ++ blanks := List.singleton_inj.1 h
      -- a segment that ends with a blank is shown as it is
      have ends' : EndsBlank last := endsBlank_shown.1 (same ▸ ends)
      rw [readSegment_of_not_enclosed (not_enclosed_of_endsBlank ends')] at same
      exact hne (List.self_eq_append_right.1 same)
  · intro h
    rw [trimChars_eq_self_iff.2 h]

/-! ### Composed paths -/

theorem solid_joinChars {cls method : Option (List Char)} {parent path : List Char}
    (hparent : Closed (frontPart parent)) (hcls : Closed (cls.getD []))
    (hmethod : Closed (method.getD [])) (h : joinChars cls method parent = some path) :
    solid path = solid (frontPart parent ++ cls.getD []) ++ solid (method.getD []) := by
  have hout : Closed (frontPart parent ++ cls.getD []) := hparent.append hcls
  cases method with
  | none =>
    cases cls with
    | none => cases h
    | some c =>
      obtain rfl : close (frontPart parent ++ c) = path := Option.some.inj h
      exact (solid_close hout).trans (List.append_nil _).symm
  | some fragment =>
    obtain rfl : close (appendFragment (frontPart parent ++ cls.getD []) fragment) = path := by
      cases cls <;> exact Option.some.inj h
    have hfragment : Closed fragment := hmethod
    obtain ⟨closed, both⟩ := appendFragment_spec hout hfragment
    exact (solid_close closed).trans both

/-- The segments that a fragment contributes, if there is one. -/
def fragmentSegments (fragment : Option String) : List (List Char) :=
  fragment.elim [] templateSegments

/-- A fragment with balanced braces and without blanks around it. -/
def IsFragment (fragment : String) : Prop :=
  Balanced fragment.toList ∧ trimChars fragment.toList = fragment.toList

instance (fragment : String) : Decidable (IsFragment fragment) :=
  inferInstanceAs (Decidable (_ ∧ _))

theorem fragmentSegments_eq {fragment : Option String} (h : ∀ f, fragment = some f → IsFragment f) :
    Closed ((fragment.map String.toList).getD []) ∧ fragmentSegments fragment =
      (solid ((fragment.map String.toList).getD [])).map fun s => (readSegment s).shown := by
  cases fragment with
  | none => exact ⟨rfl, rfl⟩
  | some f =>
    obtain ⟨balanced, trimmed⟩ := h f rfl
    refine ⟨balanced.closed, ?_⟩
    rw [fragmentSegments, Option.elim, templateSegments_eq, pathSegments, trimmed]
    rfl

/-- The segments of a path below a template are those of the template with the class fragment behind
it, and then those of the method fragment. -/
theorem exists_join_normalize {source : String} {cls method : Option String}
    (hsource : ∀ s ∈ templateSegments source, Sealed s)
    (hcls : ∀ f, cls = some f → IsFragment f) (hmethod : ∀ f, method = some f → IsFragment f)
    (hdeclared : cls ≠ none ∨ method ≠ none) :
    ∃ rest, join cls method (normalize source).text = some (String.ofList ('/' :: rest)) ∧
      solid ('/' :: rest) =
        solid (under (templateSegments source) ++ (cls.map String.toList).getD []) ++
          solid ((method.map String.toList).getD []) := by
  have hfront : frontPart (normalize source).text.toList = under (templateSegments source) := by
    rw [toList_normalize, frontPart_shownAs hsource]
  obtain ⟨cs, hcs⟩ : ∃ cs, joinChars (cls.map String.toList) (method.map String.toList)
      (normalize source).text.toList = some cs := by
    cases cls <;> cases method
    · exact absurd rfl (hdeclared.elim id id)
    all_goals exact ⟨_, rfl⟩
  obtain ⟨rest, rfl⟩ := exists_join hcs
  have closed : Closed (under (templateSegments source)) := openedBy_under hsource
  have parts := solid_joinChars (hfront ▸ closed) (fragmentSegments_eq hcls).1
    (fragmentSegments_eq hmethod).1 hcs
  rw [hfront] at parts
  exact ⟨rest, by rw [join, hcs]; rfl, parts⟩

/-- The template of a composed path consists of the segments of the template in front and of both
fragments, exactly if the class fragment is not glued to a template in front of it and the composed
path does not end with a blank. -/
theorem templateSegments_join_iff (source : String) {cls method : Option String}
    (hsource : ∀ s ∈ templateSegments source, Closed s)
    (hcls : ∀ f, cls = some f → IsFragment f) (hmethod : ∀ f, method = some f → IsFragment f)
    (hdeclared : cls ≠ none ∨ method ≠ none) :
    ∃ path, join cls method (normalize source).text = some path ∧
      (templateSegments path =
          templateSegments source ++ fragmentSegments cls ++ fragmentSegments method ↔
        (templateSegments source = [] ∨ ∀ c, cls = some c → ¬ Relative c.toList) ∧
          ¬ EndsBlank path.toList) := by
  have spec := templateSegments_spec source
  have shut : ∀ s ∈ templateSegments source, Sealed s := fun s hs =>
    ⟨(spec s hs).1, (spec s hs).2.1, hsource s hs⟩
  obtain ⟨rest, hpath, parts⟩ := exists_join_normalize shut hcls hmethod hdeclared
  refine ⟨_, hpath, ?_⟩
  rw [templateSegments_eq, pathSegments, String.toList_ofList, (fragmentSegments_eq hcls).2,
    (fragmentSegments_eq hmethod).2]
  by_cases hglued : templateSegments source = [] ∨ ∀ c, cls = some c → ¬ Relative c.toList
  · have separate : under (templateSegments source) = [] ∨
        ¬ Relative ((cls.map String.toList).getD []) := by
      refine hglued.imp (fun hnil => by rw [hnil]; rfl) fun hslash => ?_
      cases cls with
      | none => exact fun hrelative => hrelative.1 rfl
      | some c => exact hslash c rfl
    have fixed := map_shown_of_not_enclosed fun s hs => (spec s hs).2.2
    rw [solid_append_fragment (openedBy_under shut) separate, solid_under_nil shut] at parts
    have expected := congrArg (List.map fun s => (readSegment s).shown) parts
    rw [List.map_append, List.map_append, fixed] at expected
    rw [← expected, map_shown_trimmed_iff]
    exact (and_iff_right hglued).symm
  · -- a glued fragment costs a segment, which trimming does not bring back
    refine iff_of_false (fun same => ?_) fun h => hglued h.1
    obtain ⟨hne, hrelative⟩ := not_or.1 hglued
    obtain ⟨c, hc⟩ := not_forall.1 hrelative
    obtain ⟨rfl, hglue⟩ := Classical.not_imp.1 hc
    have fewer := length_solid_glued shut hne (not_not.1 hglue)
    have trimmed := length_solid_trimmed_le rest
    have lengths := congrArg List.length same
    rw [parts] at trimmed
    simp only [List.length_map, List.length_append, Option.map_some, Option.getD_some] at *
    omega

/-- The posts of a user and the comments of a post, below a template with the id of the user. -/
theorem templateSegments_join_iff_comments :
    (∀ s ∈ templateSegments "/users/{id:[0-9]+}/", Closed s) ∧ IsFragment "//posts/" ∧
      IsFragment "{post:[a-z]{2}/x}/comments/" ∧
      ∃ path, join (some "//posts/") (some "{post:[a-z]{2}/x}/comments/")
          (normalize "/users/{id:[0-9]+}/").text = some path ∧
        templateSegments path =
          ["users".toList, "{id}".toList, "posts".toList, "{post}".toList, "comments".toList] := by
  have closed : ∀ s ∈ templateSegments "/users/{id:[0-9]+}/", Closed s := by decide +kernel
  have cls : IsFragment "//posts/" := by decide +kernel
  have method : IsFragment "{post:[a-z]{2}/x}/comments/" := by decide +kernel
  obtain ⟨path, hpath, hiff⟩ := templateSegments_join_iff "/users/{id:[0-9]+}/" closed
    (fun f hf => Option.some.inj hf ▸ cls) (fun f hf => Option.some.inj hf ▸ method)
    (.inl (Option.some_ne_none _))
  have composed : join (some "//posts/") (some "{post:[a-z]{2}/x}/comments/")
      (normalize "/users/{id:[0-9]+}/").text =
        some "/users/{id}//posts/{post:[a-z]{2}/x}/comments" := by decide +kernel
  obtain rfl := Option.some.inj (composed.symm.trans hpath)
  refine ⟨closed, cls, method, _, hpath, ?_⟩
  rw [hiff.2 ⟨.inr fun c hc => ?_, by decide +kernel⟩]
  · decide +kernel
  · obtain rfl := Option.some.inj hc
    decide +kernel

/-- Without a slash in front, the path of a class is glued to the template that it stands below. -/
theorem posts_glued : IsFragment "posts" ∧ IsFragment "/{post}" ∧
    (∀ s ∈ templateSegments "/users/{id}", Closed s) ∧
    join (some "posts") (some "/{post}") (normalize "/users/{id}").text =
      some "/users/{id}posts/{post}" ∧
    templateSegments "/users/{id}posts/{post}" =
      ["users".toList, "{id}posts".toList, "{post}".toList] ∧
    templateSegments "/users/{id}" ++ fragmentSegments (some "posts") ++
        fragmentSegments (some "/{post}") =
      ["users".toList, "{id}".toList, "posts".toList, "{post}".toList] := by
  decide +kernel

end ApiCompiler.Path
