import ApiCompiler.Proofs.Loading
import ApiCompiler.Proofs.Recursion
import ApiCompiler.Proofs.SoleBody
import ApiCompiler.Proofs.StableResults
import ApiCompiler.Proofs.Traces

/-!
# Request types of one name

A method is refused when it takes its request from a type whose simple name stands for something
else already. A name stands for a request type only where that is sent as a body, and a method is
refused however it would send its own request. So two services that take their requests from
different types of one name can be read one after the other in exactly those orders in which no
request that has been sent as a body comes before one of another type.

A read is judged from the names that are taken when it starts: by these alone it is decided whether
it is refused, unless it comes to a type that cannot be resolved.
-/

set_option autoImplicit false

namespace ApiCompiler

/-- If the name of the request type of a method is taken, it is taken by that type. -/
def Progress.Admits (p : Progress) (m : Method) : Prop :=
  ∀ b, m.requestBody = some b → ∀ reference, p.document.reference? b.name = some reference →
    reference = b.reference

/-- A method with these parameters sends the request type of that name and reference as a body. -/
def Method.Puts (m : Method) (parameters : List Parameter) (name reference : String) : Prop :=
  (∃ b, m.requestBody = some b ∧ b.name = name ∧ b.reference = reference) ∧
    ∃ x ∈ parameters, x.location = .body

/-- Some names are taken, and what the other reserved names refer to stays as it is. -/
structure Progress.Takes (w : World) (o : Overrides) (R : String → Prop)
    (names : String → String → Prop) (p q : Progress) : Prop where
  atRest : q.AtRest w o
  taken : ∀ name reference, names name reference → q.document.reference? name = some reference
  others : ∀ name, R name → (∀ reference, ¬ names name reference) →
    q.document.reference? name = p.document.reference? name

/-- What is known of a method of a loaded service that is given these parameters, where the names of
request types are reserved: no other body goes by one of them. -/
structure Method.Respects (m : Method) (R : String → Prop) (parameters : List Parameter) :
    Prop where
  element : ∀ b, m.requestBody = some b → m.requestElement = none
  first : ∀ b, m.requestBody = some b →
    ∀ a rest, b.arguments = a :: rest → a.param.isSome = true
  reserved : ∀ b, m.requestBody = some b → R b.name
  others : m.requestBody = none → ∀ x ∈ parameters, x.location = .body → ¬ R x.name

namespace Run

/-- The parameters for arguments of which the first has metadata: form parameters or one body. -/
def parametersFor (w : World) (arguments : List Argument) (name reference : String) :
    Run (List Parameter) := do
  let shaped ← resolveArguments w arguments
  if shaped.all fun e => e.2.isSimple then formParameters shaped
  else return [← objectBody shaped name reference]

variable {w : World} {o : Overrides} {R : String → Prop} {m : Method} {b : RequestBody}
  {p p' : Progress}

/-! ### Classifying case by case -/

theorem candidates_of_none (h : m.requestBody = none) (p : Progress) :
    candidates m p = .ok (m.arguments, m.bodyName, m.identifier) p := by
  unfold candidates
  rw [h]
  rfl

theorem candidates_of_free (hb : m.requestBody = some b)
    (h : p.document.reference? b.name = none) :
    candidates m p = .ok (b.arguments, b.name, b.reference) p := by
  unfold Document.reference? at h
  unfold candidates
  rw [hb]
  simp only
  rw [bind_of_ok (get_apply p), h]
  rfl

theorem candidates_of_taken (hb : m.requestBody = some b) {existing : String}
    (h : p.document.reference? b.name = some existing) :
    candidates m p =
      if existing ≠ b.reference then .error (.modelNameTaken b.name existing b.reference) p
      else .ok (b.arguments, b.name, b.reference) p := by
  unfold Document.reference? at h
  unfold candidates
  rw [hb]
  simp only
  rw [bind_of_ok (get_apply p), h]
  simp only
  split <;> rfl

theorem classify_of_element {e : TypeExpr} (he : m.requestElement = some e) :
    classify w m = tokenBody w m e >>= fun x => pure [x] := by
  unfold classify
  rw [he]

theorem classify_of_error (he : m.requestElement = none) {e : Failure}
    (hc : candidates m p = .error e p) : classify w m p = .error e p := by
  unfold classify
  rw [he]
  exact bind_of_error hc

section Arguments

variable {first : Argument} {rest : List Argument} {name reference : String}

theorem classify_of_nil (he : m.requestElement = none)
    (hc : candidates m p = .ok ([], name, reference) p) : classify w m p = .ok [] p := by
  unfold classify
  rw [he]
  simp only
  rw [bind_of_ok hc]
  rfl

theorem classify_of_param (he : m.requestElement = none)
    (hc : candidates m p = .ok (first :: rest, name, reference) p)
    (hp : first.param.isSome = true) :
    classify w m p = parametersFor w (first :: rest) name reference p := by
  unfold classify
  rw [he]
  simp only
  rw [bind_of_ok hc]
  simp only [hp, if_true]
  rfl

theorem classify_of_handle (he : m.requestElement = none)
    (hc : candidates m p = .ok (first :: rest, name, reference) p)
    (hp : first.param.isSome = false) :
    classify w m p = if first.requestHandle then implicitParameters m p
      else .error (.argumentWithoutParam m.place first.name) p := by
  unfold classify
  rw [he]
  simp only
  rw [bind_of_ok hc]
  simp only [hp, Bool.false_eq_true, if_false]
  split <;> rfl

end Arguments

/-! ### What a method takes names for -/

theorem admits_iff (hb : m.requestBody = some b) :
    p.Admits m ↔ ∀ reference, p.document.reference? b.name = some reference →
      reference = b.reference := by
  unfold Progress.Admits
  rw [hb]
  exact ⟨fun h => h b rfl, fun h b' hb' => Option.some.inj hb' ▸ h⟩

/-- A request type is refused where its name is taken by another one. -/
theorem candidates_cases (hb : m.requestBody = some b) (q : Progress) :
    q.Admits m ∧ candidates m q = .ok (b.arguments, b.name, b.reference) q ∨
      ¬ q.Admits m ∧ ∃ e, candidates m q = .error e q ∧ e.family = .declaration := by
  rw [admits_iff hb]
  cases h : q.document.reference? b.name with
  | none => exact .inl ⟨nofun, candidates_of_free hb h⟩
  | some existing =>
    have taken := candidates_of_taken hb h
    by_cases he : existing = b.reference
    · rw [if_neg (not_not_intro he)] at taken
      exact .inl ⟨fun _ h => Option.some.inj h ▸ he, taken⟩
    · rw [if_pos he] at taken
      exact .inr ⟨fun h => he (h existing rfl), _, taken, rfl⟩

theorem judged_of_candidates (hb : m.requestBody = some b) (he : m.requestElement = none)
    {P : Progress → Prop} {L : Progress → Progress → Prop} {y : Run (List Parameter)}
    {xs : List Parameter} (hy : Judged P (fun _ => True) L y xs)
    (found : ∀ q, candidates m q = .ok (b.arguments, b.name, b.reference) q →
      classify w m q = y q) : Judged P (fun q => q.Admits m) L (classify w m) xs := by
  intro q hq
  rcases candidates_cases hb q with ⟨admitted, hc⟩ | ⟨refused, e, hc, hf⟩
  · rw [found q hc]
    rcases hy hq with ⟨_, h⟩ | ⟨h, _⟩ | h
    · exact .inl ⟨admitted, h⟩
    · exact absurd trivial h
    · exact .inr (.inr h)
  · exact .inr (.inl ⟨refused, e, q, classify_of_error he hc, hf⟩)

theorem admits_congr (hm : ∀ b, m.requestBody = some b → R b.name) {q q' : Progress}
    (h : q.Leaves R q') : q'.Admits m ↔ q.Admits m :=
  forall_congr' fun b => forall_congr' fun hb => by rw [h b.name (hm b hb)]

/-- What leaves reserved names alone may come before names are taken. -/
theorem Returns.takes {α β : Type} {x : Run α} {f : α → Run β} {a : α} {c : β}
    {A : Progress → Prop} {names : String → String → Prop} (hx : Returns w o R x a)
    (hf : Judged (Progress.AtRest w o) A (Progress.Takes w o R names) (f a) c)
    (hA : ∀ q q' : Progress, q.Leaves R q' → (A q' ↔ A q)) :
    Judged (Progress.AtRest w o) A (Progress.Takes w o R names) (x >>= f) c := by
  refine (Judged.bind hx hf (fun _ _ _ h => h.1) fun q q' _ _ h => hA q q' h.2).imp
    (fun _ _ => ⟨fun h => h.2, fun h => ⟨trivial, h⟩⟩) ?_
  rintro q r _ _ ⟨q', ⟨_, leaves⟩, takes⟩
  refine ⟨takes.atRest, takes.taken, fun n hn hnot => ?_⟩
  exact (takes.others n hn hnot).trans (leaves n hn)

/-- Adding a model takes its name for what it refers to. -/
theorem addModel_judged {name reference : String} {model : Schema}
    (h : model.reference = some reference) :
    Judged (Progress.AtRest w o) (fun _ => True)
      (Progress.Takes w o R fun n r => n = name ∧ r = reference)
      (onDocument fun d => d.addModel name model) () := by
  intro q hq
  have references := Document.reference?_addModel q.document name
  refine .inl ⟨trivial, _, onDocument_apply _ q, hq.of_registry rfl, ?_, fun n _ hn => ?_⟩
  · rintro n r ⟨rfl, rfl⟩
    rw [references, if_pos rfl, h]
  · rw [references, if_neg fun he => hn reference ⟨he.symm, rfl⟩]

theorem addModel_determined {name : String} (h : ¬ R name) (model : Schema) :
    Determined w o R (onDocument fun d => d.addModel name model) := by
  refine .of_returns (a := ()) fun q hq => ?_
  refine .inl ⟨trivial, _, onDocument_apply _ q, hq.of_registry rfl, fun n hn => ?_⟩
  rw [Document.reference?_addModel, if_neg]
  rintro rfl
  exact h hn

theorem implicitParameters_returns {xs : List Parameter} (hp : p.AtRest w o)
    (h : implicitParameters m p = .ok xs p') (others : ∀ x ∈ xs, x.location = .body → ¬ R x.name) :
    Returns w o R (implicitParameters m) xs := by
  have hreturned := h
  suffices determined : Determined w o R (implicitParameters m) from determined hp hreturned
  unfold implicitParameters at h ⊢
  dsimp only at h ⊢
  generalize m.decl.implicitParams = implicit at h ⊢
  split at h
  · rename_i object
    obtain ⟨_, _, _, h⟩ := bind_ok.1 h
    obtain ⟨_, _, _, h⟩ := bind_ok.1 h
    obtain ⟨rfl, _⟩ := pure_ok.1 h
    have free : ¬ R m.place := others _ (List.mem_singleton_self _) rfl
    rw [if_pos object]
    exact (Determined.of_returns (foldImplicit_reports implicit [] []).returns).bind fun _ =>
      (addModel_determined free _).bind fun _ => .pure _
  · rename_i simple
    rw [if_neg simple]
    exact .of_returns (implicitList_forms implicit).returns

section Names

variable (unnamed : ∀ name, R name → ¬ w.NamesModel name)
include unnamed

theorem tokenBody_determined (h : ¬ R m.identifier) (element : TypeExpr) :
    Determined w o R (tokenBody w m element) := by
  refine (resolve_determined element).bind fun s => ?_
  split
  · exact (addModelsOf_determined unnamed s).bind fun _ =>
      (addModel_determined h _).bind fun _ => .pure _
  · exact .throw _

/-- A body takes its name for what it stands for. -/
theorem objectBody_judged {shaped : List (Argument × Schema)} {name reference : String}
    {x : Parameter} (hp : p.AtRest w o) (h : objectBody shaped name reference p = .ok x p') :
    Judged (Progress.AtRest w o) (fun _ => True)
      (Progress.Takes w o R fun n r => n = name ∧ r = reference)
      (objectBody shaped name reference) (bodyParameter name) := by
  obtain ⟨⟨properties, required⟩, r, hout, _⟩ := bind_ok.1 h
  have fold := foldArguments_determined unnamed shaped [] [] hp hout
  have added : Judged (Progress.AtRest w o) (fun _ => True)
      (Progress.Takes w o R fun n r => n = name ∧ r = reference)
      (onDocument fun d => d.addModel name
        { kind := .object, properties, required, reference := some reference }) () :=
    addModel_judged rfl
  exact fold.takes (added.bind_pure fun _ => bodyParameter name) fun _ _ _ => .rfl

/-- Arguments with metadata become form parameters or a body that takes its name. -/
theorem parametersFor_judged {arguments : List Argument} {name reference : String}
    {xs : List Parameter} (hp : p.AtRest w o)
    (h : parametersFor w arguments name reference p = .ok xs p') :
    (∀ x ∈ xs, x.location ≠ .body) ∧
        Returns w o R (parametersFor w arguments name reference) xs ∨
      xs = [bodyParameter name] ∧ Judged (Progress.AtRest w o) (fun _ => True)
        (Progress.Takes w o R fun n r => n = name ∧ r = reference)
        (parametersFor w arguments name reference) xs := by
  obtain ⟨shaped, r, hs, h⟩ := bind_ok.1 h
  have resolved := resolveArguments_determined (R := R) arguments hp hs
  have hr := (resolved.of_ok hp hs).2.2.1
  cases hsimple : shaped.all fun e => e.2.isSimple with
  | true =>
    rw [if_pos hsimple] at h
    have returns : Returns w o R (formParameters shaped) (argumentForms shaped) :=
      (formParameters_reports shaped).returns
    obtain ⟨rfl, _⟩ := returns.of_ok hr h
    refine .inl ⟨fun x hx hbody => ?_, resolved.bind ?_⟩
    · cases (formParameters_location h x hx).symm.trans hbody
    · rw [if_pos hsimple]
      exact returns
  | false =>
    rw [if_neg (Bool.eq_false_iff.1 hsimple)] at h
    obtain ⟨x, r', hx, h⟩ := bind_ok.1 h
    obtain ⟨rfl, _⟩ := pure_ok.1 h
    have body := objectBody_judged unnamed hr hx
    rw [← objectBody_parameter hx] at body
    refine .inr ⟨by rw [objectBody_parameter hx], resolved.takes ?_ fun _ _ _ => .rfl⟩
    rw [if_neg (Bool.eq_false_iff.1 hsimple)]
    exact body.bind_pure fun x => [x]

/-- A method without a request type takes no reserved name, if its body goes by none. -/
theorem classify_returns (hb : m.requestBody = none) {xs : List Parameter} (hp : p.AtRest w o)
    (h : classify w m p = .ok xs p') (others : ∀ x ∈ xs, x.location = .body → ¬ R x.name) :
    Returns w o R (classify w m) xs := by
  cases he : m.requestElement with
  | some e =>
    -- a token body goes by the identifier of the method, which is no reserved name here
    rw [classify_of_element he] at h ⊢
    obtain ⟨x, r, hx, h⟩ := bind_ok.1 h
    obtain ⟨rfl, _⟩ := pure_ok.1 h
    have free : ¬ R m.identifier := by
      rw [tokenBody_parameter hx] at others
      exact others _ (List.mem_singleton_self _) rfl
    exact (tokenBody_determined unnamed free e hp hx).bind (Reports.pure _).returns
  | none =>
    have found := candidates_of_none hb
    cases ha : m.arguments with
    | nil =>
      rw [ha] at found
      rw [classify_of_nil he (found p)] at h
      obtain ⟨rfl, _⟩ := EStateM.Result.ok.inj h
      have nothing : Returns w o R (pure [] : Run (List Parameter)) [] := (Reports.pure _).returns
      exact nothing.congr fun q _ => classify_of_nil he (found q)
    | cons first rest =>
      rw [ha] at found
      cases hparam : first.param.isSome with
      | true =>
        rw [classify_of_param he (found p) hparam] at h
        refine Judged.congr ?_ fun q _ => classify_of_param he (found q) hparam
        rcases parametersFor_judged unnamed hp h with ⟨_, returns⟩ | ⟨rfl, takes⟩
        · exact returns
        · have free : ¬ R m.bodyName := others _ (List.mem_singleton_self _) rfl
          refine takes.imp (fun _ _ => .rfl) fun q q' _ _ ht => ⟨ht.atRest, fun n hn => ?_⟩
          refine ht.others n hn ?_
          rintro r ⟨rfl, _⟩
          exact free hn
      | false =>
        rw [classify_of_handle he (found p) hparam] at h
        split at h
        · rename_i handle
          refine (implicitParameters_returns hp h others).congr fun q _ => ?_
          rw [classify_of_handle he (found q) hparam, if_pos handle]
        · cases h

theorem classify_takes (hb : m.requestBody = some b) (he : m.requestElement = none)
    (hfirst : ∀ a rest, b.arguments = a :: rest → a.param.isSome = true) {xs : List Parameter}
    (hp : p.AtRest w o) (h : classify w m p = .ok xs p') :
    Judged (Progress.AtRest w o) (fun q => q.Admits m) (Progress.Takes w o R (m.Puts xs))
      (classify w m) xs := by
  have found : candidates m p = .ok (b.arguments, b.name, b.reference) p := by
    rcases candidates_cases hb p with ⟨_, hc⟩ | ⟨_, e, hc, _⟩
    · exact hc
    · cases (classify_of_error he hc).symm.trans h
  have leaves {y : Run (List Parameter)} (returns : Returns w o R y xs)
      (none : ∀ x ∈ xs, x.location ≠ .body) :
      Judged (Progress.AtRest w o) (fun _ => True) (Progress.Takes w o R (m.Puts xs)) y xs := by
    refine returns.imp (fun _ _ => .rfl) fun q q' _ _ ⟨hq, leaves⟩ => ⟨hq, ?_, ?_⟩
    · rintro n r ⟨_, x, hx, hbody⟩
      exact absurd hbody (none x hx)
    · exact fun n hn _ => leaves n hn
  cases ha : b.arguments with
  | nil =>
    rw [ha] at found
    rw [classify_of_nil he found] at h
    obtain ⟨rfl, _⟩ := EStateM.Result.ok.inj h
    refine judged_of_candidates hb he (leaves (Reports.pure _).returns nofun) fun q hq => ?_
    rw [ha] at hq
    exact classify_of_nil he hq
  | cons first rest =>
    have hparam := hfirst first rest ha
    rw [ha] at found
    rw [classify_of_param he found hparam] at h
    refine judged_of_candidates hb he
      (y := parametersFor w (first :: rest) b.name b.reference) ?_ fun q hq => ?_
    · rcases parametersFor_judged unnamed hp h with ⟨none, returns⟩ | ⟨rfl, takes⟩
      · exact leaves returns none
      · refine takes.imp (fun _ _ => .rfl) fun q q' _ _ ht => ⟨ht.atRest, ?_, ?_⟩
        · rintro n r ⟨⟨b', hb', rfl, rfl⟩, _⟩
          obtain rfl := Option.some.inj (hb.symm.trans hb')
          exact ht.taken _ _ ⟨rfl, rfl⟩
        · refine fun n hn hnot => ht.others n hn ?_
          rintro r ⟨rfl, rfl⟩
          exact hnot _ ⟨⟨b, hb, rfl, rfl⟩, _, List.mem_singleton_self _, rfl⟩
    · rw [ha] at hq
      exact classify_of_param he hq hparam

/-- A method that takes its request from a type is refused where the name of the type is taken by
another one, and takes the name itself if it sends a body. -/
theorem classify_judged {xs : List Parameter} (hm : m.Respects R xs) (hp : p.AtRest w o)
    (h : classify w m p = .ok xs p') :
    Judged (Progress.AtRest w o) (fun q => q.Admits m) (Progress.Takes w o R (m.Puts xs))
      (classify w m) xs := by
  cases hb : m.requestBody with
  | some b => exact classify_takes unnamed hb (hm.element b hb) (hm.first b hb) hp h
  | none =>
    refine (classify_returns unnamed hb hp h (hm.others hb)).imp (fun q _ => ?_) ?_
    · refine ⟨fun _ b hb' => ?_, fun _ => trivial⟩
      cases hb.symm.trans hb'
    · rintro q q' _ _ ⟨hq, leaves⟩
      refine ⟨hq, ?_, fun n hn _ => leaves n hn⟩
      rintro n r ⟨⟨b, hb', _⟩, _⟩
      cases hb.symm.trans hb'

/-- Building an operation comes to the request of its method in the end, and takes no reserved name
before. -/
theorem build_judged {op : Operation} (hm : m.Respects R op.parameters) (hp : p.AtRest w o)
    (h : build w m p = .ok (some op) p') :
    Judged (Progress.AtRest w o) (fun q => q.Admits m)
      (Progress.Takes w o R (m.Puts op.parameters)) (build w m) (some op) := by
  unfold build at h ⊢
  extract_lets at h ⊢
  split at h
  · cases h
  rename_i shown
  rw [if_neg shown]
  obtain ⟨headers, r₁, hheaders, h⟩ := bind_ok.1 h
  obtain ⟨op₂, r₂, hsuccess, h⟩ := bind_ok.1 h
  obtain ⟨op₃, r₃, hdeclared, h⟩ := bind_ok.1 h
  obtain ⟨xs, r₄, hclassify, h⟩ := bind_ok.1 h
  obtain ⟨hop, _⟩ := pure_ok.1 h
  have hparameters : op.parameters = xs := by
    rw [← Option.some.inj hop]
    split <;> rfl
  rw [hparameters] at hm ⊢
  -- what is built before the request leaves the reserved names alone, so that the method is
  -- admitted in the end exactly if it is at the beginning
  have stable (q q' : Progress) (h : q.Leaves R q') : q'.Admits m ↔ q.Admits m :=
    admits_congr hm.reserved h
  have first := responseHeaders_determined unnamed _ _ hp hheaders
  have h₁ := (first.of_ok hp hheaders).2.2.1
  have second := successResponse_determined unnamed _ _ _ h₁ hsuccess
  have h₂ := (second.of_ok h₁ hsuccess).2.2.1
  have third := declaredResponses_determined unnamed _ _ h₂ hdeclared
  have h₃ := (third.of_ok h₂ hdeclared).2.2.1
  have request := classify_judged unnamed hm h₃ hclassify
  rw [← hop]
  exact first.takes (second.takes (third.takes (request.bind_pure _) stable) stable) stable

end Names

end Run

end ApiCompiler
