import ApiCompiler.CommandLine.Commands
import ApiCompiler.Proofs.Sameness

/-!
# Settings files that cannot be used

A command takes a settings file that cannot be used for wrong usage, as long as reading it fails for
a value. `Settings.Source.Escapes` lists what a file can hold so that reading fails otherwise, with
what it fails for: a text that the reader of its format fails for otherwise; a section `tool`, or
`tool.routespec`, that is not a map; and a key that is not a text among the settings. Such a failure
is handled by no command.
-/

set_option autoImplicit false

namespace ApiCompiler

/-! ### Settings files -/

namespace Settings.Source

variable {γ δ : Type} {src : Source γ δ} {path : String} {content : γ} {data d : δ}
  {es : List (δ × δ)} {f : Failure}

/-- The data that holds the settings of a file with the given entries: the section of the program,
or all of the file when there is none. -/
inductive Chosen (src : Source γ δ) (data : δ) (es : List (δ × δ)) : δ → Prop where
  | noTools (h : src.find? "tool" es = none) : Chosen src data es data
  | noPart {tools : δ} {inside : List (δ × δ)} (h : src.find? "tool" es = some tools)
      (map : src.entries? tools = some inside)
      (empty : ∀ d, src.find? "routespec" inside = some d → src.isNull d = true) :
      Chosen src data es data
  | part {tools : δ} {inside : List (δ × δ)} {d : δ} (h : src.find? "tool" es = some tools)
      (map : src.entries? tools = some inside) (there : src.find? "routespec" inside = some d)
      (full : src.isNull d = false) : Chosen src data es d

theorem part_ok_iff : src.part data es = .ok d ↔ src.Chosen data es d := by
  constructor
  · intro h
    unfold part at h
    cases tool : src.find? "tool" es with
    | none =>
      rw [tool] at h
      cases h
      exact .noTools tool
    | some tools =>
      simp only [tool] at h
      cases map : src.entries? tools with
      | none => rw [map] at h; cases h
      | some inside =>
        simp only [map] at h
        cases there : src.find? "routespec" inside with
        | none =>
          rw [there] at h
          cases h
          exact .noPart tool map fun d hd => by cases there.symm.trans hd
        | some v =>
          simp only [there] at h
          cases null : src.isNull v with
          | true =>
            rw [null, if_pos rfl] at h
            cases h
            refine .noPart tool map fun d hd => ?_
            rw [← Option.some.inj (there.symm.trans hd), null]
          | false =>
            rw [null, if_neg Bool.false_ne_true] at h
            cases h
            exact .part tool map there null
  · intro h
    unfold part
    cases h with
    | noTools h => rw [h]
    | @noPart tools inside h map empty =>
      simp only [h, map]
      cases there : src.find? "routespec" inside with
      | none => rfl
      | some v => simp only [empty v there, if_true]
    | part h map there full => simp only [h, map, there, full, Bool.false_eq_true, if_false]

theorem part_error_iff : src.part data es = .error f ↔
    ∃ tools, src.find? "tool" es = some tools ∧ src.entries? tools = none ∧
      f = src.lacks tools "get" := by
  unfold part
  cases src.find? "tool" es with
  | none =>
    refine iff_of_false nofun ?_
    rintro ⟨_, ⟨⟩, _⟩
  | some tools =>
    cases map : src.entries? tools with
    | none =>
      simp only [map]
      constructor
      · rintro ⟨⟩
        exact ⟨tools, rfl, map, rfl⟩
      · rintro ⟨_, ⟨⟩, _, rfl⟩
        rfl
    | some inside =>
      simp only [map]
      refine iff_of_false (fun h => ?_) ?_
      · split at h <;> cases h
      · rintro ⟨_, ⟨⟩, none, _⟩
        cases map.symm.trans none

/-- Only texts can be keys; the first other key is what reading fails for. -/
theorem known_error_iff : src.known es = .error f ↔
    ∃ before k d after, es = before ++ (k, d) :: after ∧ (∀ e ∈ before, (src.text? e.1).isSome) ∧
      src.text? k = none ∧ f = src.lacks k "startswith" := by
  constructor
  · intro h
    induction es with
    | nil => cases h
    | cons e es ih =>
      obtain ⟨k, d⟩ := e
      unfold known at h
      cases text : src.text? k with
      | none =>
        rw [text] at h
        cases h
        exact ⟨[], k, d, es, rfl, nofun, text, rfl⟩
      | some name =>
        simp only [text] at h
        cases more : src.known es with
        | ok given => rw [more] at h; cases h
        | error e =>
          rw [more] at h
          cases h
          obtain ⟨before, k', d', after, rfl, texts, strange, rfl⟩ := ih more
          refine ⟨(k, d) :: before, k', d', after, rfl, ?_, strange, rfl⟩
          exact List.forall_mem_cons.2 ⟨by rw [text]; rfl, texts⟩
  · rintro ⟨before, k, d, after, rfl, texts, strange, rfl⟩
    induction before with
    | nil =>
      rw [List.nil_append]
      unfold known
      rw [strange]
    | cons e before ih =>
      obtain ⟨k', d'⟩ := e
      obtain ⟨text, others⟩ := List.forall_mem_cons.1 texts
      obtain ⟨name, text⟩ := Option.isSome_iff_exists.1 text
      rw [List.cons_append]
      unfold known
      simp only [text, ih others]
      rfl

/-- Settings with texts as keys only fail for their values. -/
theorem ofEntries_error (h : src.ofEntries es = .error f) :
    src.known es = .error f ∨ f.OfValue := by
  unfold ofEntries at h
  cases known : src.known es with
  | error e =>
    rw [known] at h
    cases h
    exact .inl rfl
  | ok given =>
    rw [known] at h
    have h : (src.check given).toExcept = .error f := h
    cases checked : src.check given with
    | good s => rw [checked] at h; cases h
    | bad faults =>
      rw [checked] at h
      cases h
      exact .inr (.inr (.inl rfl))

theorem ofEntries_of_known_error (h : src.known es = .error f) : src.ofEntries es = .error f := by
  unfold ofEntries
  rw [h]
  rfl

/-- A file is read as a map. -/
def Reads (src : Source γ δ) (path : String) (content : γ) (data : δ) (es : List (δ × δ)) : Prop :=
  src.fileData path content = .ok data ∧ src.entries? data = some es

/-- What a settings file can hold so that reading it fails for something else than a value, and what
it fails for. -/
inductive Escapes (src : Source γ δ) (path : String) (content : γ) : Failure → Prop where
  /-- The reader of the format fails for something else. -/
  | text {format : FileFormat} {f : Failure} (kind : formatOf? path = some format)
      (h : src.decode format content = .error f) (other : ¬ f.OfValue) : Escapes src path content f
  /-- The section of the tools is not a map. -/
  | tools {data tools : δ} {es : List (δ × δ)} (read : src.Reads path content data es)
      (h : src.find? "tool" es = some tools) (notMap : src.entries? tools = none) :
      Escapes src path content (src.lacks tools "get")
  /-- The section of the program is not a map. -/
  | part {data d : δ} {es : List (δ × δ)} (read : src.Reads path content data es)
      (h : src.Chosen data es d) (notMap : src.entries? d = none) :
      Escapes src path content (src.lacks d "items")
  /-- A key of the settings is not a text; the first one counts. -/
  | key {data d k v : δ} {es before after : List (δ × δ)} (read : src.Reads path content data es)
      (h : src.Chosen data es d) (map : src.entries? d = some (before ++ (k, v) :: after))
      (texts : ∀ e ∈ before, (src.text? e.1).isSome) (strange : src.text? k = none) :
      Escapes src path content (src.lacks k "startswith")

theorem Escapes.not_ofValue (h : src.Escapes path content f) : ¬ f.OfValue := by
  cases h with
  | text kind h other => exact other
  | tools | part | key => exact src.lacks_other _ _

/-- The data of a file is not read where the reader of its format fails. -/
theorem fileData_of_error {format : FileFormat} (kind : formatOf? path = some format)
    (h : src.decode format content = .error f) : src.fileData path content = .error f := by
  unfold fileData
  rw [kind]
  cases format with
  | yaml => simp only [h]; rfl
  | json => exact h
  | toml => exact h

theorem fileData_error (h : src.fileData path content = .error f) :
    f.OfValue ∨ src.Escapes path content f := by
  cases kind : formatOf? path with
  | none =>
    unfold fileData at h
    rw [kind] at h
    cases h
    exact .inl (.inl rfl)
  | some format =>
    cases read : src.decode format content with
    | error e =>
      obtain rfl := Except.error.inj ((fileData_of_error kind read).symm.trans h)
      by_cases value : e.OfValue
      · exact .inl value
      · exact .inr (.text kind read value)
    | ok d =>
      unfold fileData at h
      rw [kind] at h
      cases format with
      | yaml => simp only [read] at h; cases h
      | json => cases read.symm.trans h
      | toml => cases read.symm.trans h

theorem ofFile_of_reads (h : src.Reads path content data es) :
    src.ofFile path content = src.part data es >>= src.ofData := by
  unfold ofFile
  rw [h.1]
  simp only [bind, Except.bind, h.2]

theorem ofFile_of_chosen (h : src.Reads path content data es) (chosen : src.Chosen data es d) :
    src.ofFile path content = src.ofData d := by
  rw [ofFile_of_reads h, part_ok_iff.2 chosen]
  rfl

/-- What escapes is what reading the file fails for. -/
theorem Escapes.ofFile_eq (h : src.Escapes path content f) :
    src.ofFile path content = .error f := by
  cases h with
  | text kind h other =>
    unfold ofFile
    rw [fileData_of_error kind h]
    rfl
  | tools read h notMap =>
    rw [ofFile_of_reads read, part_error_iff.2 ⟨_, h, notMap, rfl⟩]
    rfl
  | part read h notMap =>
    rw [ofFile_of_chosen read h]
    unfold ofData
    rw [notMap]
  | key read h map texts strange =>
    rw [ofFile_of_chosen read h]
    unfold ofData
    rw [map]
    exact ofEntries_of_known_error (known_error_iff.2 ⟨_, _, _, _, rfl, texts, strange, rfl⟩)

/-- Reading a settings file fails for a value or for what escapes. -/
theorem ofFile_error (h : src.ofFile path content = .error f) :
    f.OfValue ∨ src.Escapes path content f := by
  cases read : src.fileData path content with
  | error e =>
    unfold ofFile at h
    rw [read] at h
    cases h
    exact fileData_error read
  | ok data =>
    cases map : src.entries? data with
    | none =>
      unfold ofFile at h
      simp only [read, bind, Except.bind, map] at h
      cases h
      exact .inl (.inl rfl)
    | some es =>
      have reads : src.Reads path content data es := ⟨read, map⟩
      cases part : src.part data es with
      | error e =>
        rw [ofFile_of_reads reads, part] at h
        cases h
        obtain ⟨tools, tool, notMap, rfl⟩ := part_error_iff.1 part
        exact .inr (.tools reads tool notMap)
      | ok d =>
        have chosen := part_ok_iff.1 part
        rw [ofFile_of_chosen reads chosen] at h
        unfold ofData at h
        cases inside : src.entries? d with
        | none =>
          rw [inside] at h
          cases h
          exact .inr (.part reads chosen inside)
        | some entries =>
          rw [inside] at h
          refine (ofEntries_error h).symm.imp_right fun known => ?_
          obtain ⟨before, k, v, after, rfl, texts, strange, rfl⟩ := known_error_iff.1 known
          exact .key reads chosen inside texts strange

end Settings.Source

namespace CommandLine

variable {γ δ : Type} {src : Settings.Source γ δ} {w : World} {files : String → Option γ}
  {arguments : List String} {command : Command} {o : Options} {config : String} {content : γ}
  {f : Failure}

theorem Outcome.ofSettingsFailure_of_value (h : f.OfValue) : ofSettingsFailure f = usage := by
  unfold ofSettingsFailure
  rcases h with h | h | h | h <;> rw [h]

theorem Outcome.ofSettingsFailure_of_not_value (h : ¬ f.OfValue) :
    ofSettingsFailure f = { exitCode := 1, failure := some f } := by
  unfold ofSettingsFailure
  split
  · rename_i h'; exact (h (.inl h')).elim
  · rename_i h'; exact (h (.inr (.inl h'))).elim
  · rename_i h'; exact (h (.inr (.inr (.inl h')))).elim
  · rename_i h'; exact (h (.inr (.inr (.inr h')))).elim
  · rfl

/-- A command whose settings cannot be read does nothing else; the format of the document is looked
at before. -/
theorem run_of_settings_error {r : Outcome} (read : readArguments arguments = some (command, o))
    (format : command = .compile → (TextFormat.ofName? o.format).isSome)
    (h : settingsOf src files o = .error r) : runWith src w files arguments = r := by
  have compile : compileFor src w files o = .error r := by
    unfold compileFor
    rw [h]
    rfl
  unfold runWith
  rw [read]
  cases command with
  | compile =>
    obtain ⟨format, hf⟩ := Option.isSome_iff_exists.1 (format rfl)
    simp only [runCompile, hf, compile]
    rfl
  | routes =>
    simp only [runRoutes, compile]
    rfl
  | models =>
    simp only [runModels, compile]
    rfl

theorem settingsOf_of_missing (hc : o.config = some config) (h : files (plainPath config) = none) :
    settingsOf src files o = .error .usage := by
  unfold settingsOf
  rw [hc]
  simp only [h]
  rfl

theorem settingsOf_of_error (hc : o.config = some config)
    (h : files (plainPath config) = some content)
    (hf : src.ofFile (plainPath config) content = .error f) :
    settingsOf src files o = .error (Outcome.ofSettingsFailure f) := by
  unfold settingsOf
  rw [hc]
  simp only [h, hf]
  rfl

end CommandLine

/-! ### Files that escape -/

namespace Settings

/-- JSON text that does not nest too deep is read as a value. -/
theorem decode_json {text : String} {v : Value}
    (flat : Json.deepest 0 .between (plainBreaks text.toList) ≤ nestingBound)
    (read : Json.read (String.ofList (plainBreaks text.toList)) = some v) :
    texts.decode .json text = .ok (.ofValue v) := by
  show decode .json text = _
  simp only [decode, if_neg (Nat.not_lt.2 flat), read]

/-- A settings file of which the section of the tools is a number. -/
def numberText : String := "\x7b\"tool\": 1\x7d"

theorem read_number : Json.read (String.ofList (plainBreaks numberText.toList)) =
    some (.map [(.text "tool", .int 1)]) := by
  have read : (Json.read (String.ofList (plainBreaks numberText.toList))).any
      (·.identical (.map [(.text "tool", .int 1)])) = true := by decide +kernel
  obtain ⟨v, h⟩ := Option.isSome_iff_exists.1 (Option.isSome_of_any read)
  rw [h] at read
  rw [h, Value.eq_of_identical v _ read]

theorem escapes_number : texts.Escapes "c.json" numberText (.missingAttribute "int" "get") := by
  have kind : formatOf? "c.json" = some .json := by decide +kernel
  have data : texts.fileData "c.json" numberText =
      .ok (.map [(.scalar (.text "tool"), .scalar (.int 1))]) := by
    unfold Source.fileData
    rw [kind]
    exact decode_json (by decide +kernel) read_number
  have tool : texts.find? "tool" [(.scalar (.text "tool"), .scalar (.int 1))] =
      some (.scalar (.int 1)) := rfl
  exact .tools ⟨data, rfl⟩ tool rfl

/-- A flow list in YAML text that does not end. -/
theorem escapes_flow : texts.Escapes "c.yaml" "a: [b" .malformedYaml := by
  have read : (match texts.decode .yaml "a: [b" with
      | .ok _ => false
      | .error f => f == .malformedYaml) = true := by decide +kernel
  have kind : formatOf? "c.yaml" = some .yaml := by decide +kernel
  cases h : texts.decode .yaml "a: [b" with
  | ok d => rw [h] at read; cases read
  | error f =>
    rw [h] at read
    rw [eq_of_beq read] at h
    exact .text kind h (by decide)

end Settings

end ApiCompiler
