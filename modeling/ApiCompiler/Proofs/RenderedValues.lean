import ApiCompiler.Proofs.Printing
import ApiCompiler.Proofs.Tables
import ApiCompiler.Swagger

/-!
# Values of a rendered document

A document has values that it did not make: those that its schemas list, and defaults. Rendering
puts them in place as they are, and adds nothing but texts, truth values and the security definitions
of the settings. `DrawsOn` says that the values of a schema, an operation or a document are given
ones; what is rendered is then made from the given ones.
-/

set_option autoImplicit false

namespace ApiCompiler

variable {given : Value → Prop}

/-- The values that a schema lists are given, and so is its default if it is not null; the same
holds of the schemas in it. -/
inductive Schema.DrawsOn (given : Value → Prop) : Schema → Prop
  | intro {s : Schema} (enum : ∀ v ∈ s.enum, given v)
      (default : s.default.isNull = false → given s.default)
      (items : ∀ t, s.items = some t → DrawsOn given t)
      (values : ∀ t, s.values = some t → DrawsOn given t)
      (properties : ∀ e ∈ s.properties, DrawsOn given e.2) : DrawsOn given s

structure Parameter.DrawsOn (given : Value → Prop) (p : Parameter) : Prop where
  default : p.default.isNull = false → given p.default
  shape : p.shape.DrawsOn given

structure Response.DrawsOn (given : Value → Prop) (r : Response) : Prop where
  shape : ∀ s, r.shape = some s → s.DrawsOn given
  headers : ∀ e ∈ r.headers, e.2.DrawsOn given

structure Operation.DrawsOn (given : Value → Prop) (op : Operation) : Prop where
  parameters : ∀ x ∈ op.parameters, x.DrawsOn given
  responses : ∀ e ∈ op.responses, e.2.DrawsOn given

structure Document.DrawsOn (given : Value → Prop) (d : Document) : Prop where
  definitions : ∀ e ∈ d.definitions, e.2.DrawsOn given
  operations : ∀ o ∈ d.operations, o.2.2.DrawsOn given

namespace Table

/-- All values of a table are put together from given values. -/
def MadeFrom (given : Value → Prop) (t : Table Value) : Prop := ∀ e ∈ t, e.2.MadeFrom given

namespace MadeFrom

variable {t u : Table Value} {key : String} {v : Value}

theorem nil : MadeFrom given [] := nofun

theorem cons (hv : v.MadeFrom given) (ht : MadeFrom given t) : MadeFrom given ((key, v) :: t) :=
  List.forall_mem_cons.2 ⟨hv, ht⟩

theorem single (hv : v.MadeFrom given) : MadeFrom given [(key, v)] := cons hv nil

theorem append (ht : MadeFrom given t) (hu : MadeFrom given u) : MadeFrom given (t ++ u) :=
  List.forall_mem_append.2 ⟨ht, hu⟩

theorem insert (ht : MadeFrom given t) (hv : v.MadeFrom given) :
    MadeFrom given (Table.insert t key v) :=
  forall_insert ht hv

theorem record (ht : MadeFrom given t) : (Value.record t).MadeFrom given := .record ht

/-- An entry that may be left out. -/
theorem optional {p : Prop} [Decidable p] (h : ¬ p → MadeFrom given t) :
    MadeFrom given (if p then [] else t) := by
  split
  · exact nil
  · rename_i hp
    exact h hp

theorem mapValues {α : Type} {f : α → Value} {t : Table α} (h : ∀ e ∈ t, (f e.2).MadeFrom given) :
    MadeFrom given (t.mapValues f) := by
  intro e he
  obtain ⟨x, hx, rfl⟩ := List.mem_map.1 he
  exact h x hx

end MadeFrom

end Table

namespace Swagger

open Table (MadeFrom)

theorem texts_madeFrom (ss : List String) : (Value.texts ss).MadeFrom given :=
  .list fun _ hx => by
    obtain ⟨s, _, rfl⟩ := List.mem_map.1 hx
    exact .text s

theorem empty_madeFrom : (Value.map []).MadeFrom given := .record (t := []) nofun

theorem textEntry_madeFrom (key s : String) : MadeFrom given (textEntry key s) :=
  .optional fun _ => .single (.text s)

theorem textsEntry_madeFrom (key : String) (ss : List String) :
    MadeFrom given (textsEntry key ss) :=
  .optional fun _ => .single (texts_madeFrom ss)

theorem valueEntry_madeFrom {key : String} {v : Value} (h : v.isNull = false → given v) :
    MadeFrom given (valueEntry key v) :=
  .optional fun hv => .single (.given (h (Bool.eq_false_iff.2 hv)))

theorem optionValue_madeFrom {s : Option Schema}
    (h : ∀ t, s = some t → MadeFrom given (schemaEntries t)) :
    (optionValue s).MadeFrom given := by
  cases s with
  | none => exact empty_madeFrom
  | some t => exact .record (h t rfl)

theorem tableEntries_madeFrom {ps : Table Schema}
    (h : ∀ e ∈ ps, MadeFrom given (schemaEntries e.2)) : MadeFrom given (tableEntries ps) := by
  induction ps with
  | nil => exact .nil
  | cons e ps ih =>
    obtain ⟨first, rest⟩ := List.forall_mem_cons.1 h
    exact .cons (.record first) (ih rest)

theorem schemaEntries_madeFrom {s : Schema} (h : s.DrawsOn given) :
    MadeFrom given (schemaEntries s) := by
  induction h with
  | @intro s enum default _ _ _ items values properties =>
    obtain ⟨kind, format, itemsOf, valuesOf, ref, props, required, listed, description, byDefault,
      access, reference⟩ := s
    refine .append ?_ ?_
    · cases kind with
      | ref => exact .single (.text _)
      | array => exact .cons (.text _) (.single (optionValue_madeFrom items))
      | map => exact .cons (.text _) (.single (optionValue_madeFrom values))
      | object =>
        refine .cons (.text _) (.append ?_ (textsEntry_madeFrom _ _))
        cases props with
        | nil => exact .nil
        | cons e es => exact .single (.record (tableEntries_madeFrom properties))
      | _ => exact .cons (.text _) (textEntry_madeFrom _ _)
    · refine .append (.append (.append ?_ ?_) ?_) ?_
      · exact .optional fun _ => .single (.list fun v hv => .given (enum v hv))
      · exact textEntry_madeFrom _ _
      · exact valueEntry_madeFrom default
      · exact textEntry_madeFrom _ _

theorem schema_madeFrom {s : Schema} (h : s.DrawsOn given) : (schema s).MadeFrom given :=
  .record (schemaEntries_madeFrom h)

theorem parameterEntries_madeFrom {p : Parameter} (h : p.DrawsOn given) :
    MadeFrom given (parameterEntries p) := by
  have head : MadeFrom given ([("name", .text p.name), ("in", .text p.location.name),
      ("required", .bool p.required)] ++ textEntry "description" p.description) :=
    .append (.cons (.text _) (.cons (.text _) (.single (.bool _)))) (textEntry_madeFrom _ _)
  unfold parameterEntries
  split
  · exact head.append (.single (schema_madeFrom h.shape))
  · have inline : MadeFrom given (inlineKeys.filterMap fun key =>
        ((schemaEntries p.shape).get? key).map fun v => (key, v)) := by
      intro e he
      obtain ⟨key, _, hkey⟩ := List.mem_filterMap.1 he
      obtain ⟨v, hv, rfl⟩ := Option.map_eq_some_iff.1 hkey
      exact schemaEntries_madeFrom h.shape _ (Table.mem_of_get? hv)
    have shown := head.append inline
    have allowed : ∀ out, MadeFrom given out → MadeFrom given
        (if p.enum = [] then out else Table.insert out "enum" (Value.texts p.enum)) := by
      intro out hout
      split
      · exact hout
      · exact hout.insert (texts_madeFrom _)
    refine .append (.append (.append (allowed _ ?_) (valueEntry_madeFrom h.default))
      (textEntry_madeFrom _ _)) (textEntry_madeFrom _ _)
    split
    any_goals exact shown.insert (.text _)
    exact shown

theorem responseEntries_madeFrom {r : Response} (h : r.DrawsOn given) :
    MadeFrom given (responseEntries r) := by
  refine .append (.append (.single (.text _)) ?_) ?_
  · cases hs : r.shape with
    | none => exact .nil
    | some s => exact .single (schema_madeFrom (h.shape s hs))
  · exact .optional fun _ => .single <| .record <| tableEntries_madeFrom fun e he =>
      schemaEntries_madeFrom (h.headers e he)

theorem operation_madeFrom {op : Operation} (h : op.DrawsOn given) :
    (operation op).MadeFrom given := by
  have parameters : (Value.list (op.parameters.map fun p =>
      Value.record (parameterEntries p))).MadeFrom given := by
    refine .list fun v hv => ?_
    obtain ⟨p, hp, rfl⟩ := List.mem_map.1 hv
    exact .record (parameterEntries_madeFrom (h.parameters p hp))
  have responses : MadeFrom given (op.responses.mapValues fun r => .record (responseEntries r)) :=
    .mapValues fun e he => .record (responseEntries_madeFrom (h.responses e he))
  have security : MadeFrom given (if op.security = [] then [] else
      [("security", .list (op.security.map fun name => Value.record [(name, .list [])]))]) := by
    refine .optional fun _ => .single (.list fun v hv => ?_)
    obtain ⟨name, _, rfl⟩ := List.mem_map.1 hv
    exact .record (MadeFrom.single (.list nofun))
  have deprecated :
      MadeFrom given (if op.deprecated then [("deprecated", .bool true)] else []) := by
    split
    · exact .single (.bool _)
    · exact .nil
  refine MadeFrom.record (.append (.append (.append (.append (.append (.append (.append
    ?_ ?_) ?_) ?_) ?_) ?_) security) deprecated)
  · exact .single (.text _)
  · exact textsEntry_madeFrom _ _
  · exact textEntry_madeFrom _ _
  · exact textEntry_madeFrom _ _
  · exact .cons (texts_madeFrom _) (.cons (texts_madeFrom _)
      (.cons parameters (.single (.record responses))))
  · exact textsEntry_madeFrom _ _

theorem paths_madeFrom {d : Document} (h : d.DrawsOn given) : (paths d).MadeFrom given := by
  refine MadeFrom.record (.mapValues fun e he => MadeFrom.record (.mapValues fun o ho => ?_))
  have stored : (e.1, o.1, o.2) ∈ d.operations := List.mem_flatMap.2
    ⟨e, Table.mem_sorted.1 he, List.mem_map.2 ⟨o, Table.mem_sorted.1 ho, rfl⟩⟩
  exact operation_madeFrom (h.operations _ stored)

theorem definitions_madeFrom {d : Document} (h : d.DrawsOn given) :
    (definitions d).MadeFrom given :=
  MadeFrom.record (.mapValues fun e he => schema_madeFrom (h.definitions e (Table.mem_sorted.1 he)))

theorem securityDefinitions_madeFrom {d : Document} {settings : Settings}
    (h : ∀ e ∈ settings.securityDefinitions, given (.map e.2)) :
    MadeFrom given (securityDefinitions d settings) := by
  intro e he
  obtain ⟨name, _, hname⟩ := List.mem_filterMap.1 he
  obtain ⟨es, hes, rfl⟩ := Option.map_eq_some_iff.1 hname
  exact .given (h _ (Table.mem_of_get? hes))

/-- A rendered document is made from the values of the document and the security definitions. -/
theorem render_madeFrom {d : Document} {settings : Settings} (h : d.DrawsOn given)
    (hs : ∀ e ∈ settings.securityDefinitions, given (.map e.2)) :
    (render d settings).MadeFrom given := by
  have info : MadeFrom given ([("title", .text settings.title), ("version", .text settings.version)]
      ++ textEntry "description" settings.description) :=
    .append (.cons (.text _) (.single (.text _))) (textEntry_madeFrom _ _)
  have tags : MadeFrom given (if d.tags = [] then []
      else [("tags", .list (d.tags.map fun t => Value.record [("name", .text t)]))]) := by
    refine .optional fun _ => .single (.list fun v hv => ?_)
    obtain ⟨t, _, rfl⟩ := List.mem_map.1 hv
    exact .record (MadeFrom.single (.text t))
  refine MadeFrom.record (.append (.append (.append (.append (.append (.append (.append (.append
    ?_ ?_) ?_) ?_) ?_) ?_) tags) ?_) ?_)
  · exact .cons (.text _) (.single (.record info))
  · exact textEntry_madeFrom _ _
  · exact .single (.text _)
  · exact textsEntry_madeFrom _ _
  · exact textsEntry_madeFrom _ _
  · exact textsEntry_madeFrom _ _
  · exact .cons (paths_madeFrom h) (.single (definitions_madeFrom h))
  · exact .optional fun _ => .single (.record (securityDefinitions_madeFrom hs))

end Swagger

end ApiCompiler
