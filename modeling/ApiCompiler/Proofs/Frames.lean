import ApiCompiler.Compilation.Build
import ApiCompiler.Proofs.Definitions
import ApiCompiler.Proofs.Steps

/-!
# What steps leave alone

Reading parameters only reports, resolving a type touches the registry as well, building an
operation the definitions of the document too, and nothing else. These facts are stated for any
relation between states that allows the changes: the trail and the path table are the cases that the
scan relies on.
-/

set_option autoImplicit false

namespace ApiCompiler

theorem AllowedValues.notice_read {raw : String} {n : Notice} (h : n ∈ (read raw).2) :
    n.ofDefinition = false := by
  unfold read at h
  simp only at h
  split at h
  · cases h
  · split at h
    · rw [List.mem_singleton.1 h]
      rfl
    · cases h

theorem Primitive.notice_schema {name : String} {n : Notice} (h : n ∈ (schema name).2) :
    n.ofDefinition = false := by
  unfold schema at h
  split at h
  · cases h
  · rw [List.mem_singleton.1 h]
    rfl

namespace Run

section Reporting

variable {R : Progress → Progress → Prop} (hR : AllowsReports R)
include hR

theorem untyped_keeps (w : World) (t : TypeExpr) (reason : String) :
    Keeps R (untyped w t reason) :=
  hR.bind (hR.report _ rfl) fun _ => hR.pure _

theorem formParameters_keeps (arguments : List (Argument × Schema)) :
    Keeps R (formParameters arguments) := by
  induction arguments with
  | nil => exact hR.pure _
  | cons a rest ih =>
    obtain ⟨a, shape⟩ := a
    unfold formParameters
    cases a.param with
    | none => exact ih
    | some info =>
      have allowed := hR.reported (AllowedValues.read info.allowedValues) fun _ =>
        AllowedValues.notice_read
      exact hR.bind (hR.bind allowed fun _ => hR.pure _) fun _ =>
        hR.bind ih fun _ => hR.pure _

theorem implicitParameter_keeps (p : ImplicitParam) : Keeps R (implicitParameter p) := by
  unfold implicitParameter
  extract_lets kind
  split
  · exact hR.bind (hR.report _ rfl) fun _ => hR.pure _
  · split
    · exact hR.bind (hR.report _ rfl) fun _ => hR.pure _
    · have allowed := hR.reported (AllowedValues.read p.allowedValues) fun _ =>
        AllowedValues.notice_read
      have shape := hR.reported (Primitive.schema p.typeName) fun _ => Primitive.notice_schema
      exact hR.bind allowed fun _ => hR.bind shape fun _ => hR.pure _

theorem implicitList_keeps (ps : List ImplicitParam) : Keeps R (implicitList ps) := by
  induction ps with
  | nil => exact hR.pure _
  | cons p ps ih =>
    exact hR.bind (implicitParameter_keeps hR p) fun _ => hR.bind ih fun _ => hR.pure _

theorem foldImplicit_keeps (ps : List ImplicitParam) (properties : Table Schema)
    (required : List String) : Keeps R (foldImplicit ps properties required) := by
  induction ps generalizing properties required with
  | nil => exact hR.pure _
  | cons p ps ih =>
    have shape := hR.reported (Primitive.schema p.typeName) fun _ => Primitive.notice_schema
    exact hR.bind shape fun _ => ih _ _

end Reporting

section Resolving

variable {R : Progress → Progress → Prop} (hR : AllowsResolving R)
include hR

theorem resolveFields_keeps {f : TypeExpr → Run Schema} (hf : ∀ t, Keeps R (f t)) :
    ∀ (fields : List ModelField) (properties : Table Schema) (required : List String),
      Keeps R (resolveFields f fields properties required) := by
  intro fields
  induction fields with
  | nil => intro _ _; exact hR.pure _
  | cons m ms ih => intro _ _; exact hR.bind (hf m.type) fun _ => ih _ _

theorem buildModel_keeps {f : TypeExpr → Run Schema} (hf : ∀ t, Keeps R (f t)) (t : TypeExpr)
    (name : String) (fields : List ModelField) : Keeps R (buildModel f t name fields) := by
  unfold buildModel
  refine hR.bind hR.get fun p => hR.bind (hR.onRegistry _) fun _ => hR.bind ?_ fun _ =>
    hR.report _ rfl
  refine hR.guarded (fun q => hR.registry q _) ?_
  exact hR.bind (resolveFields_keeps hR hf _ _ _) fun _ =>
    hR.bind (hR.onRegistry _) fun _ => hR.pure _

theorem resolveModel_keeps (w : World) {f : TypeExpr → Run Schema} (hf : ∀ t, Keeps R (f t))
    (t : TypeExpr) : Keeps R (resolveModel w f t) := by
  unfold resolveModel
  refine hR.bind (hR.ofExcept _) fun name => hR.bind hR.get fun p => ?_
  simp only
  split
  · exact hR.pure _
  · cases w.fieldsOf t with
    | error reason => exact untyped_keeps hR.toAllowsReports w t reason
    | ok fields => exact hR.bind (buildModel_keeps hR hf t name fields) fun _ => hR.pure _

theorem resolveShape_keeps (w : World) {f : TypeExpr → Run Schema} (hf : ∀ t, Keeps R (f t))
    (t : TypeExpr) : Keeps R (resolveShape w f t) := by
  unfold resolveShape
  refine hR.bind hR.get fun p => ?_
  cases w.shape p.registry.overrides t with
  | fixed s => exact hR.pure s
  | alike u => exact hf u
  | array item =>
    cases item with
    | none => exact hR.pure _
    | some u => exact hR.bind (hf u) fun _ => hR.pure _
  | map value =>
    cases value with
    | none => exact hR.pure _
    | some u => exact hR.bind (hf u) fun _ => hR.pure _
  | model => exact resolveModel_keeps hR w hf t.bare
  | unmappable reason => exact untyped_keeps hR.toAllowsReports w t.bare reason

/-- Resolving a type changes nothing but the registry and the reports. -/
theorem resolve_keeps (w : World) (t : TypeExpr) : Keeps R (resolve w t) := by
  have within : ∀ bound t, Keeps R (resolveWithin w bound t) := by
    intro bound
    induction bound with
    | zero => intro _; exact hR.throw _
    | succ bound ih => intro t; exact resolveShape_keeps hR w ih t
  exact within nestingBound t

omit hR in
/-- Resolving a type leaves the document alone. -/
theorem resolve_document {w : World} {t : TypeExpr} {p q : Progress} {s : Schema}
    (h : resolve w t p = .ok s q) : q.document = p.document :=
  (resolve_keeps (allowsResolving_of_eq Progress.document (fun _ _ => rfl) fun _ _ => rfl) w
    t).of_ok h

end Resolving

section Building

variable {R : Progress → Progress → Prop} (hB : AllowsBuilding R)
include hB

theorem addModelsOf_keeps (s : Schema) : Keeps R (addModelsOf s) :=
  hB.bind hB.get fun _ => hB.models _

theorem addModel_keeps (name : String) (model : Schema) :
    Keeps R (onDocument fun d => d.addModel name model) :=
  hB.models [(name, model)]

theorem shapeIn_keeps (w : World) (t : TypeExpr) (container : String) :
    Keeps R (shapeIn w t container) :=
  hB.bind (resolve_keeps hB.toAllowsResolving w t) fun _ =>
    hB.bind (addModelsOf_keeps hB _) fun _ => hB.pure _

theorem responseHeaders_keeps (w : World) (headers : List HeaderInfo) (out : Table Schema) :
    Keeps R (responseHeaders w headers out) := by
  induction headers generalizing out with
  | nil => exact hB.pure _
  | cons h hs ih =>
    unfold responseHeaders
    split
    · exact ih _
    · exact hB.bind (shapeIn_keeps hB w _ _) fun _ => ih _

theorem successResponse_keeps (w : World) (m : Method) (headers : Table Schema) (op : Operation) :
    Keeps R (successResponse w m headers op) := by
  unfold successResponse
  cases w.payloadType m with
  | none => exact hB.pure _
  | some t => exact hB.bind (shapeIn_keeps hB w t _) fun _ => hB.pure _

theorem declaredResponses_keeps (w : World) (responses : List ResponseInfo) (op : Operation) :
    Keeps R (declaredResponses w responses op) := by
  induction responses generalizing op with
  | nil => exact hB.pure _
  | cons r rs ih =>
    unfold declaredResponses
    refine hB.bind (responseHeaders_keeps hB w _ _) fun headers => ?_
    split
    · exact hB.bind (hB.pure _) fun _ => ih _
    · exact hB.bind (AllowsReports.map _ (shapeIn_keeps hB w _ _)) fun _ => ih _

theorem foldArguments_keeps (arguments : List (Argument × Schema)) (properties : Table Schema)
    (required : List String) : Keeps R (foldArguments arguments properties required) := by
  induction arguments generalizing properties required with
  | nil => exact hB.pure _
  | cons a rest ih =>
    obtain ⟨a, shape⟩ := a
    unfold foldArguments
    cases a.param with
    | none => exact ih _ _
    | some info => exact hB.bind (addModelsOf_keeps hB _) fun _ => ih _ _

theorem objectBody_keeps (arguments : List (Argument × Schema)) (name reference : String) :
    Keeps R (objectBody arguments name reference) :=
  hB.bind (foldArguments_keeps hB _ _ _) fun _ =>
    hB.bind (addModel_keeps hB _ _) fun _ => hB.pure _

theorem tokenBody_keeps (w : World) (m : Method) (element : TypeExpr) :
    Keeps R (tokenBody w m element) := by
  unfold tokenBody
  refine hB.bind (resolve_keeps hB.toAllowsResolving w element) fun s => ?_
  split
  · exact hB.bind (addModelsOf_keeps hB s) fun _ =>
      hB.bind (addModel_keeps hB _ _) fun _ => hB.pure _
  · exact hB.throw _

theorem implicitParameters_keeps (m : Method) : Keeps R (implicitParameters m) := by
  unfold implicitParameters
  extract_lets implicit
  split
  · exact hB.bind (foldImplicit_keeps hB.toAllowsReports _ _ _) fun _ =>
      hB.bind (addModel_keeps hB _ _) fun _ => hB.pure _
  · exact implicitList_keeps hB.toAllowsReports _

theorem candidates_keeps (m : Method) : Keeps R (candidates m) := by
  unfold candidates
  cases m.requestBody with
  | none => exact hB.pure _
  | some body =>
    refine hB.bind hB.get fun p => ?_
    simp only
    split
    · split
      · exact hB.throw _
      · exact hB.pure _
    · exact hB.pure _

theorem resolveArguments_keeps (w : World) (arguments : List Argument) :
    Keeps R (resolveArguments w arguments) := by
  induction arguments with
  | nil => exact hB.pure _
  | cons a rest ih =>
    exact hB.bind (resolve_keeps hB.toAllowsResolving w _) fun _ => hB.bind ih fun _ => hB.pure _

theorem classify_keeps (w : World) (m : Method) : Keeps R (classify w m) := by
  unfold classify
  cases m.requestElement with
  | some e => exact hB.bind (tokenBody_keeps hB w m e) fun _ => hB.pure _
  | none =>
    refine hB.bind (candidates_keeps hB m) fun found => ?_
    obtain ⟨arguments, name, reference⟩ := found
    cases arguments with
    | nil => exact hB.pure _
    | cons first rest =>
      simp only
      split
      · refine hB.bind (resolveArguments_keeps hB w _) fun shaped => ?_
        split
        · exact formParameters_keeps hB.toAllowsReports _
        · exact hB.bind (objectBody_keeps hB _ _ _) fun _ => hB.pure _
      · split
        · exact implicitParameters_keeps hB m
        · exact hB.throw _

/-- Building an operation changes nothing but the registry, the definitions and the reports. -/
theorem build_keeps (w : World) (m : Method) : Keeps R (build w m) := by
  unfold build
  extract_lets info op op'
  split
  · exact hB.pure _
  · exact hB.bind (responseHeaders_keeps hB w _ _) fun _ =>
      hB.bind (successResponse_keeps hB w m _ _) fun _ =>
        hB.bind (declaredResponses_keeps hB w _ _) fun _ =>
          hB.bind (classify_keeps hB w m) fun _ => hB.pure _

end Building

end Run

end ApiCompiler
