import Stepwise.Proofs.Step.Retries

/-! Which declarations of steps can be built. Every kind has a schema: what its parameters must meet, in the
order in which they are looked at. A step is built from parameters that meet all of it, and the first demand
that is not met is the one that is reported; so a process is built when all its steps fit, and otherwise the
first parameter of the first step that does not fit is to blame. -/
namespace Stepwise

/-! ### Demands -/

/-- Something to meet for the value under a key of the parameters, or for its absence. -/
structure Demand where
  key : String
  Holds : Option Json → Prop

namespace Demand

def text (key : String) : Demand :=
  ⟨key, fun value => ∃ s, value = some (.string s)⟩

def optionalText (key : String) : Demand :=
  ⟨key, fun value => value = none ∨ value = some .null ∨ ∃ s, value = some (.string s)⟩

def optionalObject (key : String) : Demand :=
  ⟨key, fun value => value = none ∨ value = some .null ∨ ∃ fields, value = some (.object fields)⟩

/-- A count of 64 bits, which may be absent but not null. -/
def optionalCount (key : String) : Demand :=
  ⟨key, fun value => value = none ∨ ∃ n : Nat, n < 2 ^ 64 ∧ value = some (.number (.int n))⟩

/-- A flag, which may be absent but not null. -/
def optionalFlag (key : String) : Demand :=
  ⟨key, fun value => value = none ∨ ∃ b, value = some (.bool b)⟩

def functionName (functions : Functions) (key : String) : Demand :=
  ⟨key, fun value => ∃ name ∈ functions.names, value = some (.string name)⟩

def optionalFunctionName (functions : Functions) (key : String) : Demand :=
  ⟨key, fun value => value = none ∨ value = some .null ∨ ∃ name ∈ functions.names, value = some (.string name)⟩

/-- A demand on the kind itself, whatever the parameters are. -/
def onKind (met : Prop) : Demand :=
  ⟨"kind", fun _ => met⟩

/-- The parameters meet the demand. -/
def MetBy (d : Demand) (params : Object) : Prop :=
  d.Holds (params.get? d.key)

/-- The first of some demands that the parameters do not meet is about this key. -/
def FirstUnmet (demands : List Demand) (params : Object) (key : String) : Prop :=
  ∃ before d after, demands = before ++ d :: after ∧ (∀ e ∈ before, e.MetBy params) ∧ ¬ d.MetBy params ∧
    d.key = key

/-- A value that is neither null nor a text. -/
theorem not_optionalText_metBy {key : String} {params : Object} {value : Json}
    (hValue : params.get? key = some value) (hNull : value ≠ .null) (hText : ∀ s, value ≠ .string s) :
    ¬ (optionalText key).MetBy params := by
  rintro (h | h | ⟨s, h⟩)
  · cases hValue.symm.trans h
  · exact hNull (Option.some.inj (hValue.symm.trans h))
  · exact hText s (Option.some.inj (hValue.symm.trans h))

theorem optionalText_of_text {key : String} {params : Object} (h : (text key).MetBy params) :
    (optionalText key).MetBy params :=
  .inr (.inr h)

theorem optionalText_of_functionName {functions : Functions} {key : String} {params : Object}
    (h : (optionalFunctionName functions key).MetBy params) : (optionalText key).MetBy params :=
  h.imp id (.imp id fun ⟨name, _, hName⟩ => ⟨name, hName⟩)

end Demand

namespace Workshop

variable {W : Type} (shop : Workshop W)

/-- What steps of a kind must meet, in the order in which it is looked at. -/
def schema : (kind : String) → List Demand
  | "deterministic" => [.functionName shop.functions "function"]
  | "judge" =>
    [.optionalText "artifact", .optionalCount "min_length", .optionalText "purpose",
      .optionalFunctionName shop.functions "rule"]
  | "assign" => [.optionalObject "context", .optionalObject "artifacts", .optionalObject "quality"]
  | "llm" =>
    [.onKind (shop.hasClient = true), .text "prompt_template", .optionalText "model", .optionalText "purpose",
      .optionalText "output_key", .optionalFlag "json_output", .optionalCount "retries",
      .optionalCount "retry_backoff_ms"]
  | _ => [.onKind False]

/-- A step that is replaced, or whose parameters meet the schema of its kind. -/
def Fits (name : String) (spec : StepSpec) : Prop :=
  name ∈ shop.overrides.names ∨ ∀ d ∈ shop.schema spec.kind, d.MetBy spec.params

end Workshop

/-! ### Readings that enforce demands -/

/-- The result succeeds if all demands are met, and otherwise refuses the parameter of the first that is
not. -/
inductive Enforces {α : Type} (step : String) (params : Object) (x : Except Flaw α) : List Demand → Prop where
  | done {a : α} (h : x = .ok a) : Enforces step params x []
  | met {d : Demand} {rest : List Demand} (h : d.MetBy params) (hRest : Enforces step params x rest) :
      Enforces step params x (d :: rest)
  | unmet {d : Demand} {rest : List Demand} {problem : ParameterProblem} (h : ¬ d.MetBy params)
      (hRefused : x = .error (.parameter step d.key problem)) : Enforces step params x (d :: rest)

namespace Enforces

variable {α β : Type} {step : String} {params : Object} {x : Except Flaw α} {demands rest : List Demand}

theorem exists_ok_iff (h : Enforces step params x demands) :
    (∃ a, x = .ok a) ↔ ∀ d ∈ demands, d.MetBy params := by
  induction h with
  | done h => exact iff_of_true ⟨_, h⟩ nofun
  | met h _ ih => rw [ih, List.forall_mem_cons, and_iff_right h]
  | unmet h hRefused =>
      refine iff_of_false ?_ fun hAll => h (hAll _ List.mem_cons_self)
      rintro ⟨a, hOk⟩
      cases hRefused.symm.trans hOk

theorem firstUnmet (h : Enforces step params x demands) {flaw : Flaw} (hError : x = .error flaw) :
    ∃ key problem, flaw = .parameter step key problem ∧ Demand.FirstUnmet demands params key := by
  induction h with
  | done h => cases h.symm.trans hError
  | @met d rest h _ ih =>
      obtain ⟨key, problem, hFlaw, before, e, after, rfl, hBefore, hUnmet⟩ := ih
      exact ⟨key, problem, hFlaw, d :: before, e, after, rfl, List.forall_mem_cons.mpr ⟨h, hBefore⟩, hUnmet⟩
  | @unmet d rest problem h hRefused =>
      cases hRefused.symm.trans hError
      exact ⟨d.key, problem, rfl, [], d, rest, rfl, nofun, h, rfl⟩

/-- What reads on enforces further demands. -/
theorem bind (h : Enforces step params x demands) {f : α → Except Flaw β}
    (hNext : ∀ a, Enforces step params (f a) rest) : Enforces step params (x >>= f) (demands ++ rest) := by
  induction h with
  | @done a h =>
      subst h
      exact hNext a
  | met h _ ih => exact .met h ih
  | unmet h hRefused =>
      subst hRefused
      exact .unmet h rfl

theorem map (h : Enforces step params x demands) (f : α → β) : Enforces step params (x.map f) demands := by
  induction h with
  | done h =>
      subst h
      exact .done rfl
  | met h _ ih => exact .met h ih
  | unmet h hRefused =>
      subst hRefused
      exact .unmet h rfl

/-- Of two demands under one key that come to the same, either may stand. -/
theorem congr {d e : Demand} (h : Enforces step params x [d]) (hKey : d.key = e.key)
    (hMet : d.MetBy params ↔ e.MetBy params) : Enforces step params x [e] := by
  cases h with
  | met h hRest =>
      obtain ⟨a, hOk⟩ := hRest.exists_ok_iff.mpr nofun
      exact .met (hMet.mp h) (.done hOk)
  | unmet h hRefused => exact .unmet (fun hMet' => h (hMet.mpr hMet')) (hKey ▸ hRefused)

end Enforces

namespace Parameters

variable (step : String) (params : Object) (key : String)

theorem enforces_text? : Enforces step params (text? step params key) [.optionalText key] := by
  unfold text?
  split
  · next hAbsent => exact .met (.inl hAbsent) (.done rfl)
  · next hNull => exact .met (.inr (.inl hNull)) (.done rfl)
  · next s hText => exact .met (.inr (.inr ⟨s, hText⟩)) (.done rfl)
  · next value hNull hText hValue => exact .unmet (Demand.not_optionalText_metBy hValue hNull hText) rfl

/-- The two readings of texts differ in what they say of other values. -/
theorem plainText?_eq : Completion.plainText? step params key =
    (text? step params key).mapError fun _ => .parameter step key (.wrongType "a string" none) := by
  unfold Completion.plainText? text?
  split <;> rfl

theorem enforces_plainText? :
    Enforces step params (Completion.plainText? step params key) [.optionalText key] := by
  rw [plainText?_eq]
  cases enforces_text? step params key with
  | met h hRest =>
      obtain ⟨text, hText⟩ := hRest.exists_ok_iff.mpr nofun
      exact .met h (.done (by rw [hText]; rfl))
  | unmet h hRefused => exact .unmet h (by rw [hRefused]; rfl)

theorem enforces_namespaceOf : Enforces step params (namespaceOf step params key) [.optionalObject key] := by
  have hJson := params.map_json_value? key
  unfold namespaceOf
  cases hValue : params.value? key with
  | none =>
      rw [hValue] at hJson
      exact .met (.inl hJson.symm) (.done rfl)
  | some value =>
      obtain ⟨json, canonical⟩ := value
      rw [hValue] at hJson
      cases json with
      | null => exact .met (.inr (.inl hJson.symm)) (.done rfl)
      | object fields => exact .met (.inr (.inr ⟨fields, hJson.symm⟩)) (.done rfl)
      | bool | number | string | array =>
          refine .unmet ?_ rfl
          rintro (h | h | ⟨fields, h⟩) <;> cases hJson.trans h

/-- A text that must be there, and what is read on with it. -/
theorem enforces_template {α : Type} {rest : List Demand} {next : String → Except Flaw α}
    (hNext : ∀ template, Enforces step params (next template) rest) :
    Enforces step params
      (Completion.plainText? step params key >>= fun template? =>
        match template? with
        | none => refuse step key .noTemplate
        | some template => next template)
      (.text key :: rest) := by
  unfold Completion.plainText?
  split
  · next hAbsent => exact .unmet (fun ⟨s, h⟩ => nomatch hAbsent.symm.trans h) rfl
  · next hNull => exact .unmet (fun ⟨s, h⟩ => nomatch hNull.symm.trans h) rfl
  · next template hText => exact .met ⟨template, hText⟩ (hNext template)
  · next value hNull hText hValue =>
      have hOther := Demand.not_optionalText_metBy hValue hNull hText
      exact .unmet (fun h => hOther (Demand.optionalText_of_text h)) rfl

/-- A value that is read if it is given meets a demand if the demand holds for what can be read. -/
theorem enforces_given? {α : Type} {Holds : Option Json → Prop} {read : Json → Option α}
    {problem : Json → ParameterProblem} (hNone : Holds none)
    (hRead : ∀ value, Holds (some value) ↔ (read value).isSome = true) :
    Enforces step params (given? step params key read problem) [⟨key, Holds⟩] := by
  unfold given?
  split
  · next hAbsent => exact .met (show Holds _ from hAbsent ▸ hNone) (.done rfl)
  · next value hValue =>
      split
      · next a hSome =>
          have hMet : Holds (some value) := (hRead value).mpr (by rw [hSome]; rfl)
          exact .met (show Holds _ from hValue ▸ hMet) (.done rfl)
      · next hNone' =>
          refine .unmet (fun hMet => ?_) rfl
          have hSome := (hRead value).mp (hValue ▸ hMet : Holds (some value))
          rw [hNone'] at hSome
          cases hSome

theorem enforces_count? {problem : Json → ParameterProblem} :
    Enforces step params (given? step params key count? problem) [.optionalCount key] := by
  refine enforces_given? step params key (.inl rfl) fun value => ⟨?_, fun hSome => ?_⟩
  · rintro (h | ⟨n, hBound, h⟩)
    · cases h
    · cases h
      have hCount : count? (.number (.int n)) = some n := if_pos hBound
      rw [hCount]
      rfl
  · obtain ⟨n, hCount⟩ := Option.isSome_iff_exists.mp hSome
    obtain ⟨rfl, hBound⟩ := Completion.count?_eq_some hCount
    exact .inr ⟨n, hBound, rfl⟩

theorem enforces_bool? {problem : Json → ParameterProblem} :
    Enforces step params (given? step params key Completion.bool? problem) [.optionalFlag key] := by
  refine enforces_given? step params key (.inl rfl) fun value => ?_
  cases value with
  | bool b => exact iff_of_true (.inr ⟨b, rfl⟩) rfl
  | null | number | string | array | object =>
      refine iff_of_false ?_ nofun
      rintro (h | ⟨b, h⟩) <;> cases h

/-! ### Names of functions -/

variable (functions : Functions)

theorem functionName_metBy_iff {name : String} (h : params.get? key = some (.string name)) :
    (Demand.functionName functions key).MetBy params ↔ (functions.get? name).isSome = true := by
  refine Iff.trans ?_ (Declarations.contains_iff_mem_names functions name).symm
  constructor
  · rintro ⟨other, hMem, hOther⟩
    cases h.symm.trans hOther
    exact hMem
  · exact fun hMem => ⟨name, hMem, h⟩

theorem enforces_functionNamed {name : String} (h : params.get? key = some (.string name)) :
    Enforces step params (functionNamed functions step key name) [.functionName functions key] := by
  have hMet := functionName_metBy_iff params key functions h
  unfold functionNamed
  cases hFunction : functions.get? name with
  | some function => exact .met (hMet.mpr (by rw [hFunction]; rfl)) (.done rfl)
  | none =>
      refine .unmet (fun hRegistered => ?_) rfl
      rw [hMet, hFunction] at hRegistered
      cases hRegistered

variable {params key functions} in
theorem not_functionName_metBy (h : ∀ name, params.get? key ≠ some (.string name)) :
    ¬ (Demand.functionName functions key).MetBy params :=
  fun ⟨name, _, hName⟩ => h name hName

theorem enforces_calledFunction :
    Enforces step params (calledFunction functions step params) [.functionName functions "function"] := by
  unfold calledFunction text?
  split
  · next hAbsent => exact .unmet (not_functionName_metBy (by simp [hAbsent])) rfl
  · next hNull => exact .unmet (not_functionName_metBy (by simp [hNull])) rfl
  · next name hText => exact enforces_functionNamed step params "function" functions hText
  · next value hNull hText hValue =>
      refine .unmet (not_functionName_metBy fun name h => ?_) rfl
      exact hText name (Option.some.inj (hValue.symm.trans h))

/-- A function that may be named, and what is made of it. -/
theorem enforces_optionalFunction {β : Type} (make : Option StepFunction → β) :
    Enforces step params
      (text? step params key >>= fun name? =>
        match name? with
        | some name => (functionNamed functions step key name).map some >>= fun function => .ok (make function)
        | none => .ok (make none))
      [.optionalFunctionName functions key] := by
  unfold text?
  split
  · next hAbsent => exact .met (.inl hAbsent) (.done rfl)
  · next hNull => exact .met (.inr (.inl hNull)) (.done rfl)
  · next name hText =>
      have hNamed := ((enforces_functionNamed step params key functions hText).map some).bind
        fun function => .done (x := .ok (make function)) rfl
      refine hNamed.congr rfl ⟨fun h => .inr (.inr h), ?_⟩
      rintro (h | h | h)
      · cases hText.symm.trans h
      · cases hText.symm.trans h
      · exact h
  · next value hNull hText hValue =>
      have hOther := Demand.not_optionalText_metBy hValue hNull hText
      exact .unmet (fun h => hOther (Demand.optionalText_of_functionName h)) rfl

end Parameters

open Parameters

/-! ### Schemas of the kinds -/

variable (step : String) (params : Object) (functions : Functions)

theorem Judge.enforces_ofParams : Enforces step params (Judge.ofParams functions step params)
    [.optionalText "artifact", .optionalCount "min_length", .optionalText "purpose",
      .optionalFunctionName functions "rule"] := by
  unfold Judge.ofParams
  refine (enforces_text? step params "artifact").bind fun artifact => ?_
  refine (enforces_count? step params "min_length").bind fun minLength => ?_
  refine (enforces_text? step params "purpose").bind fun purpose => ?_
  exact enforces_optionalFunction step params "rule" functions
    (Judge.mk step (artifact.getD (withDefaults step).artifact) (minLength.getD (withDefaults step).minLength)
      purpose)

theorem enforces_assignedDelta : Enforces step params (assignedDelta step params)
    [.optionalObject "context", .optionalObject "artifacts", .optionalObject "quality"] := by
  unfold assignedDelta
  refine (enforces_namespaceOf step params "context").bind fun context => ?_
  refine (enforces_namespaceOf step params "artifacts").bind fun artifacts => ?_
  refine (enforces_namespaceOf step params "quality").bind fun quality => ?_
  exact .done rfl

theorem Completion.enforces_ofParams : Enforces step params (Completion.ofParams step params)
    [.text "prompt_template", .optionalText "model", .optionalText "purpose", .optionalText "output_key",
      .optionalFlag "json_output", .optionalCount "retries", .optionalCount "retry_backoff_ms"] := by
  unfold Completion.ofParams
  refine enforces_template step params "prompt_template" fun template => ?_
  refine (enforces_plainText? step params "model").bind fun model => ?_
  refine (enforces_plainText? step params "purpose").bind fun purpose => ?_
  refine (enforces_plainText? step params "output_key").bind fun outputKey => ?_
  refine (enforces_bool? step params "json_output").bind fun jsonOutput => ?_
  refine (enforces_count? step params "retries").bind fun retries => ?_
  refine (enforces_count? step params "retry_backoff_ms").bind fun backoff => ?_
  exact .done rfl

namespace Workshop

variable {W : Type} {shop : Workshop W}

/-- A step that is not replaced is built if it meets the schema of its kind. -/
theorem enforces_buildStep {name : String} (spec : StepSpec) (hPlain : shop.overrides.get? name = none) :
    Enforces name spec.params (shop.buildStep name spec) (shop.schema spec.kind) := by
  unfold buildStep
  rw [hPlain]
  dsimp only
  generalize spec.kind = kind
  split
  · exact (enforces_calledFunction name spec.params shop.functions).map _
  · exact (Judge.enforces_ofParams name spec.params shop.functions).map _
  · exact (enforces_assignedDelta name spec.params).map _
  · split_ifs with hClient
    · exact .met hClient ((Completion.enforces_ofParams name spec.params).map _)
    · exact .unmet hClient rfl
  · next hDeterministic hJudge hAssign hCompletion =>
      have hSchema : shop.schema kind = [.onKind False] := by
        unfold schema
        split <;> first | rfl | contradiction
      rw [hSchema]
      exact .unmet id rfl

theorem exists_buildStep_iff {name : String} {spec : StepSpec} :
    (∃ step, shop.buildStep name spec = .ok step) ↔ shop.Fits name spec := by
  unfold Fits
  rw [← Declarations.contains_iff_mem_names, Declarations.contains]
  cases hOverride : shop.overrides.get? name with
  | some step => exact iff_of_true ⟨step, by rw [buildStep, hOverride]⟩ (.inl rfl)
  | none => simpa using (enforces_buildStep spec hOverride).exists_ok_iff

/-- What is reported of a step is the first demand of its kind that its parameters do not meet. -/
theorem firstUnmet_of_buildStep {name : String} {spec : StepSpec} {flaw : Flaw}
    (h : shop.buildStep name spec = .error flaw) :
    ∃ key problem, flaw = .parameter name key problem ∧
      Demand.FirstUnmet (shop.schema spec.kind) spec.params key := by
  cases hOverride : shop.overrides.get? name with
  | some step =>
      rw [buildStep, hOverride] at h
      cases h
  | none => exact (enforces_buildStep spec hOverride).firstUnmet h

/-- Building ends at the first step that cannot be built. -/
theorem exists_of_buildAll_eq_error {entries : List (String × StepSpec)} {flaw : Flaw} :
    ∀ {steps : Steps W}, shop.buildAll steps entries = .error flaw →
      ∃ before name spec after, entries = before ++ (name, spec) :: after ∧
        (∀ entry ∈ before, shop.Fits entry.1 entry.2) ∧ shop.buildStep name spec = .error flaw := by
  induction entries with
  | nil => exact fun h => nomatch h
  | cons entry rest ih =>
      obtain ⟨first, firstSpec⟩ := entry
      intro steps h
      rcases bind_eq_error_iff.mp h with hFirst | ⟨step, hStep, hRest⟩
      · exact ⟨[], first, firstSpec, rest, rfl, nofun, hFirst⟩
      · obtain ⟨before, name, spec, after, rfl, hBefore, hFails⟩ := ih hRest
        refine ⟨(first, firstSpec) :: before, name, spec, after, rfl, ?_, hFails⟩
        exact List.forall_mem_cons.mpr ⟨exists_buildStep_iff.mp ⟨step, hStep⟩, hBefore⟩

/-- A process is built exactly when each of its steps is replaced or fits its kind. What is built stands under
the declared names and no others. If it is not built, then the first parameter of the first step that does not
fit is named, in the order of the declarations and of the schema. -/
theorem build_accepts_schema (shop : Workshop W) (g : Graph) :
    ((∃ built, shop.build g = .ok built) ↔ ∀ entry ∈ g.nodes.entries, shop.Fits entry.1 entry.2.spec) ∧
    (∀ built, shop.build g = .ok built → ∀ name, name ∈ built.names ↔ name ∈ g.nodes.names) ∧
    ∀ e, shop.build g = .error e → ∃ before name node after key problem,
      g.nodes.entries = before ++ (name, node) :: after ∧
      (∀ entry ∈ before, shop.Fits entry.1 entry.2.spec) ∧ ¬ shop.Fits name node.spec ∧
      Demand.FirstUnmet (shop.schema node.spec.kind) node.spec.params key ∧
      e = .invalid (.parameter name key problem) ∧
      (Flaw.parameter name key problem).element.text = "steps." ++ name ++ "." ++ key := by
  refine ⟨?_, fun built h => mem_names_of_build h, fun e h => ?_⟩
  · simp only [build_ok_iff, exists_buildAll_iff, exists_buildStep_iff, Declarations.map, List.forall_mem_map]
  · obtain ⟨flaw, hAll, rfl⟩ := mapError_eq_error_iff.mp h
    obtain ⟨_, _, _, _, hEntries, hBefore, hFails⟩ := exists_of_buildAll_eq_error hAll
    obtain ⟨before, rest, hSplit, rfl, hRest⟩ := List.map_eq_append_iff.mp hEntries
    obtain ⟨⟨name, node⟩, after, rfl, hHead, rfl⟩ := List.map_eq_cons_iff.mp hRest
    cases hHead
    obtain ⟨key, problem, rfl, hFirst⟩ := firstUnmet_of_buildStep hFails
    refine ⟨before, name, node, after, key, problem, hSplit, List.forall_mem_map.mp hBefore, fun hFits => ?_,
      hFirst, rfl, ?_⟩
    · obtain ⟨step, hStep⟩ := exists_buildStep_iff.mpr hFits
      cases hStep.symm.trans hFails
    · simp [Flaw.element, Element.text, toString]

end Workshop

end Stepwise
