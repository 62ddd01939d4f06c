import ApiCompiler.Proofs.Repetition

/-!
# Building an operation again

Every step of building an operation repeats, and so does building: of a method among some whose
contributors share no name. The types that building resolves are those of the method, and a body is
what its arguments denote.
-/

set_option autoImplicit false

namespace ApiCompiler.Run

variable {w : World} {o : Overrides} {S : Method → Prop}

/-- Where nothing needs to be known of the state, and nothing is. -/
def RepeatsAlways {α : Type} (w : World) (o : Overrides) (S : Method → Prop) (x : Run α) : Prop :=
  Repeats w o S (fun _ => True) x fun _ _ => True

namespace RepeatsAlways

variable {α β : Type}

theorem pure (a : α) : RepeatsAlways w o S (pure a : Run α) :=
  Repeats.pure fun _ _ => trivial

theorem bind {x : Run α} {f : α → Run β} (hx : RepeatsAlways w o S x)
    (hf : ∀ a, RepeatsAlways w o S (f a)) : RepeatsAlways w o S (x >>= f) :=
  Repeats.bind hx hf

end RepeatsAlways

theorem Reports.always {α : Type} {x : Run α} {a : α} (hx : Reports x a) :
    RepeatsAlways w o S x :=
  hx.repeats.imp (fun _ h => h) fun _ _ _ => trivial

theorem foldImplicit_reports (ps : List ImplicitParam) (properties : Table Schema)
    (required : List String) :
    Reports (foldImplicit ps properties required) (foldedImplicit ps properties required) := by
  induction ps generalizing properties required with
  | nil => exact .pure _
  | cons p ps ih => exact (Reports.reported _).bind (ih _ _)

variable (apart : w.Apart o S)
include apart

theorem shapeIn_repeats {t : TypeExpr} (ht : w.MetBy o S t) (container : String) :
    RepeatsAlways w o S (shapeIn w t container) :=
  (resolve_repeats apart ht).bind fun s =>
    ((addModelsOf_repeats apart s).imp (fun _ h => h.1) fun _ _ h => h).bind fun _ =>
      RepeatsAlways.pure _

theorem responseHeaders_repeats {headers : List HeaderInfo}
    (ht : ∀ t ∈ World.headerTypes headers, w.MetBy o S t) (out : Table Schema) :
    RepeatsAlways w o S (responseHeaders w headers out) := by
  induction headers generalizing out with
  | nil => exact .pure _
  | cons h hs ih =>
    have rest : ∀ t ∈ World.headerTypes hs, w.MetBy o S t :=
      fun t hmem => ht t (World.headerTypes_cons_subset h hs hmem)
    unfold responseHeaders
    split
    · exact ih rest out
    · rename_i named
      have met := ht _ (World.type_mem_headerTypes named hs)
      exact (shapeIn_repeats apart met _).bind fun _ => ih rest _

theorem successResponse_repeats {m : Method} (ht : ∀ t ∈ w.payloadType m, w.MetBy o S t)
    (headers : Table Schema) (op : Operation) :
    RepeatsAlways w o S (successResponse w m headers op) := by
  unfold successResponse
  cases hp : w.payloadType m with
  | none => exact .pure _
  | some t => exact (shapeIn_repeats apart (ht t hp) _).bind fun _ => RepeatsAlways.pure _

theorem declaredResponses_repeats {responses : List ResponseInfo}
    (ht : ∀ t ∈ responses.flatMap World.responseTypes, w.MetBy o S t) (op : Operation) :
    RepeatsAlways w o S (declaredResponses w responses op) := by
  induction responses generalizing op with
  | nil => exact .pure _
  | cons r rs ih =>
    rw [List.flatMap_cons] at ht
    have rest : ∀ t ∈ rs.flatMap World.responseTypes, w.MetBy o S t :=
      fun t h => ht t (List.mem_append_right _ h)
    have own : ∀ t ∈ World.responseTypes r, w.MetBy o S t :=
      fun t h => ht t (List.mem_append_left _ h)
    unfold declaredResponses
    refine (responseHeaders_repeats apart (fun t h => own t (List.mem_append_left _ h)) _).bind
      fun headers => ?_
    split
    · exact (RepeatsAlways.pure _).bind fun _ => ih rest _
    · rename_i hcontent
      have met := own _ (World.type_mem_responseTypes hcontent)
      exact RepeatsAlways.bind (.map _ (shapeIn_repeats apart met _)) fun _ => ih rest _

theorem resolveArguments_repeats {arguments : List Argument}
    (ht : ∀ a ∈ arguments, w.MetBy o S a.annotation) :
    Repeats w o S (fun _ => True) (resolveArguments w arguments) fun shaped p =>
      (∀ e ∈ shaped, p.registry.Covers e.2) ∧
        ∃ schemas, List.Forall₂ (fun a s => w.Denotes o a.annotation s) arguments schemas ∧
          shaped = arguments.zip schemas := by
  induction arguments with
  | nil => exact .pure fun _ _ => ⟨nofun, [], .nil, rfl⟩
  | cons a rest ih =>
    refine (resolve_repeats apart (ht a List.mem_cons_self)).bind fun s => .of_fact fun hs => ?_
    have others := (ih fun b hb => ht b (List.mem_cons_of_mem _ hb)).frame
      (stable_covers (s := s))
    refine (others.imp (fun _ h => ⟨trivial, h⟩) fun _ _ h => h).bind fun shaped => .pure ?_
    rintro p ⟨⟨hcovers, schemas, hschemas, rfl⟩, hc⟩
    refine ⟨fun e he => ?_, s :: schemas, .cons hs hschemas, rfl⟩
    rcases List.mem_cons.1 he with rfl | he
    · exact hc
    · exact hcovers e he

theorem foldArguments_repeats {shaped : List (Argument × Schema)} (properties : Table Schema)
    (required : List String) :
    Repeats w o S (fun p => ∀ e ∈ shaped, p.registry.Covers e.2)
      (foldArguments shaped properties required)
      fun out _ => out = folded shaped properties required := by
  induction shaped generalizing properties required with
  | nil => exact .pure fun _ _ => rfl
  | cons e rest ih =>
    obtain ⟨a, shape⟩ := e
    unfold foldArguments folded
    cases a.param with
    | none =>
      exact (ih properties required).imp (fun _ h e he => h e (List.mem_cons_of_mem _ he))
        fun _ _ h => h
    | some info =>
      have stable : Stable fun p => ∀ e ∈ rest, p.registry.Covers e.2 :=
        fun _ _ hadv h e he => (h e he).mono hadv.registry.grows
      refine (((addModelsOf_repeats apart _).frame stable).imp (fun p h => ⟨?_, ?_⟩)
        fun _ _ h => h).bind fun _ => (ih _ _).imp (fun _ h => h.2) fun _ _ h => h
      · have hshape := h _ List.mem_cons_self
        split
        · exact hshape
        · exact hshape.described _
      · exact fun e he => h e (List.mem_cons_of_mem _ he)

theorem objectBody_repeats {shaped : List (Argument × Schema)} {name reference : String}
    (hs : w.Sends o S name (.ofFolded (folded shaped [] []) reference)) :
    Repeats w o S (fun p => ∀ e ∈ shaped, p.registry.Covers e.2)
      (objectBody shaped name reference) fun _ _ => True := by
  refine (foldArguments_repeats apart [] []).bind fun out => .of_fact' fun hout => ?_
  obtain ⟨properties, required⟩ := out
  rw [← hout] at hs
  exact (addModel_repeats apart hs).bind fun _ => RepeatsAlways.pure _

theorem tokenBody_repeats {m : Method} {e : TypeExpr} (hm : S m) (he : m.requestElement = some e)
    (ht : w.MetBy o S e) : RepeatsAlways w o S (tokenBody w m e) := by
  refine (resolve_repeats apart ht).bind fun s => .of_fact fun hs => ?_
  split
  · rename_i items hk hi
    refine (addModelsOf_repeats apart s).bind fun _ => ?_
    exact (addModel_repeats apart ⟨m, _, hm, .token he hs hk hi⟩).bind fun _ => RepeatsAlways.pure _
  · exact .throw _

theorem implicitParameters_repeats {m : Method} {first : Argument} {rest : List Argument}
    (hm : S m) (he : m.requestElement = none) (ha : m.request.1 = first :: rest)
    (hp : first.param.isSome = false) : RepeatsAlways w o S (implicitParameters m) := by
  unfold implicitParameters
  extract_lets implicit
  split
  · rename_i ho
    have hs := Method.HasBody.implicit (w := w) (o := o) he ha hp ho
    refine (foldImplicit_reports implicit [] []).repeats.bind fun out => .of_fact' fun hout => ?_
    obtain ⟨properties, required⟩ := out
    rw [← hout] at hs
    exact (addModel_repeats apart ⟨m, _, hm, hs⟩).bind fun _ => RepeatsAlways.pure _
  · exact (implicitList_forms implicit).always

theorem classify_repeats {m : Method} (hm : S m) : RepeatsAlways w o S (classify w m) := by
  have ht : ∀ t ∈ m.requestTypes, w.MetBy o S t := fun t h =>
    World.metBy_of_mem hm (List.mem_append_right _ h)
  unfold classify
  unfold Method.requestTypes at ht
  cases he : m.requestElement with
  | some e =>
    rw [he] at ht
    have met : w.MetBy o S e := ht e (List.mem_singleton_self e)
    exact (tokenBody_repeats apart hm he met).bind fun _ => RepeatsAlways.pure _
  | none =>
    rw [he] at ht
    refine (candidates_repeats apart hm).bind fun found => .of_fact' fun hfound => ?_
    obtain ⟨arguments, name, reference⟩ := found
    rw [← hfound] at ht
    cases arguments with
    | nil => exact RepeatsAlways.pure _
    | cons first rest =>
      have hm' : m.request.1 = first :: rest := by rw [← hfound]
      simp only at ht ⊢
      split
      · rename_i hp
        rw [if_pos hp] at ht
        have met : ∀ a ∈ first :: rest, w.MetBy o S a.annotation :=
          fun a ha => ht _ (List.mem_map_of_mem ha)
        refine (resolveArguments_repeats apart met).bind fun shaped => .of_fact ?_
        rintro ⟨schemas, hschemas, rfl⟩
        split
        · have sent := formParameters_reports ((first :: rest).zip schemas)
          exact sent.repeats.imp (fun _ _ => trivial) fun _ _ _ => trivial
        · rename_i hn
          have hbody : m.HasBody w o m.requester m.request.2.1
              (.ofFolded (folded (m.request.1.zip schemas) [] []) m.request.2.2) := by
            refine .folded he hm' hp ?_ ?_
            · rw [← hfound]
              exact hschemas
            · rw [← hfound]
              exact Bool.eq_false_iff.2 hn
          rw [← hfound] at hbody
          exact (objectBody_repeats apart ⟨m, _, hm, hbody⟩).bind fun _ => RepeatsAlways.pure _
      · rename_i hp
        split
        · exact implicitParameters_repeats apart hm he hm' (Bool.eq_false_iff.2 hp)
        · exact .throw _

/-- Building the operation of a method. -/
theorem build_repeats {m : Method} (hm : S m) : RepeatsAlways w o S (build w m) := by
  have met : ∀ t ∈ w.typesOf m, w.MetBy o S t := fun t h => World.metBy_of_mem hm h
  unfold World.typesOf at met
  simp only [List.mem_append, Option.mem_toList] at met
  unfold build
  extract_lets info op op'
  split
  · exact .pure _
  · refine (responseHeaders_repeats apart (fun t h => met t (.inl (.inl (.inl h)))) _).bind
      fun headers => ?_
    refine (successResponse_repeats apart (fun t h => met t (.inl (.inl (.inr h)))) _ _).bind
      fun op => ?_
    refine (declaredResponses_repeats apart (fun t h => met t (.inl (.inr h))) _).bind fun op => ?_
    exact (classify_repeats apart hm).bind fun _ => .pure _

end ApiCompiler.Run
