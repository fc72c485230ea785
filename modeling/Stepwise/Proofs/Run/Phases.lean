import Stepwise.Process.Source
import Stepwise.Proofs.Process.Acceptance
import Stepwise.Proofs.Run.Failure

/-! When errors occur. What stops a process from being loaded is an error of loading: its source is not
readable as a description, it does not compile, its steps cannot be built or are not registered. What stops a
run is the failure of a step. Only a file that something else than its absence keeps from being read is told by
an error of neither phase. -/
namespace Stepwise

namespace Error

/-- The error stops a process from being loaded, and no step has failed. -/
def OfLoading (e : Error) : Prop := e.isLoadTime = true ∧ e.isExecutionFailure = false

/-- A step has failed, and the error is not one of loading. -/
def OfRun (e : Error) : Prop := e.isExecutionFailure = true ∧ e.isLoadTime = false

/-- What blames a part of a description was found before anything ran. -/
theorem ofLoading_of_blamed? {e : Error} {blamed : Element × Option Guard.Fault}
    (h : e.blamed? = some blamed) : e.OfLoading := by
  cases e with
  | invalid flaw => exact ⟨rfl, rfl⟩
  | invalidCondition element fault => exact ⟨rfl, rfl⟩
  | _ => cases h

end Error

/-- There may be a file, but something keeps it from being read. -/
inductive FileResult.Unread : FileResult → Prop
  | unreachable (message : String) : Unread (.unreachable message)
  | failed (message : String) : Unread (.failed message)

/-! ### Loading -/

namespace Description

theorem ofJson_error {json : Json} {e : Error} (h : ofJson json = .error e) : e.OfLoading := by
  obtain ⟨misfit, -, rfl⟩ := mapError_eq_error_iff.mp h
  exact ⟨rfl, rfl⟩

theorem ofText_error {format : Format} {text : String} {e : Error} (h : ofText format text = .error e) :
    e.OfLoading := by
  obtain ⟨message, -, rfl⟩ := mapError_eq_error_iff.mp h
  exact ⟨rfl, rfl⟩

theorem ofFile_error {path : String} {file : FileResult} {e : Error} (h : ofFile path file = .error e) :
    e.isExecutionFailure = false ∧
      (e.isLoadTime = true ↔ Format.ofPath? path = none ∨ ¬ file.Unread) := by
  unfold ofFile at h
  cases hFormat : Format.ofPath? path with
  | none =>
      rw [hFormat] at h
      cases h
      exact ⟨rfl, iff_of_true rfl (.inl rfl)⟩
  | some format =>
      rw [hFormat] at h
      cases file with
      | content text =>
          obtain ⟨message, -, rfl⟩ := mapError_eq_error_iff.mp h
          exact ⟨rfl, iff_of_true rfl (.inr nofun)⟩
      | missing =>
          cases h
          exact ⟨rfl, iff_of_true rfl (.inr nofun)⟩
      | unreachable message =>
          cases h
          exact ⟨rfl, iff_of_false nofun (not_or.mpr ⟨nofun, not_not.mpr (.unreachable message)⟩)⟩
      | failed message =>
          cases h
          exact ⟨rfl, iff_of_false nofun (not_or.mpr ⟨nofun, not_not.mpr (.failed message)⟩)⟩

/-- A name that is longer than a file system allows. -/
private def endless : String := String.ofList (List.replicate 300 'a' ++ '.' :: "yaml".toList)

/-- The error for a file with such a name is not told to be one of loading, though nothing can have run. -/
theorem not_ofLoading_endless :
    ofFile endless (.unreachable "File name too long (os error 36)") =
        .error (.io "File name too long (os error 36)") ∧
      ¬ (Error.io "File name too long (os error 36)").OfLoading := by
  have hSlash : '/' ∉ List.replicate 300 'a' ++ '.' :: "yaml".toList := by
    rw [List.mem_append, not_or]
    exact ⟨fun h => absurd (List.eq_of_mem_replicate h) (by decide), by decide⟩
  have hExtension : Text.PathName.extension? endless = some "yaml" :=
    Text.PathName.extension?_of_no_slash hSlash (List.cons_ne_nil _ _) (by decide) (by decide)
  have hFormat : Format.ofPath? endless = some .yaml := by
    rw [Format.ofPath?, hExtension, Option.bind_some]
    decide +kernel
  refine ⟨?_, fun h => Bool.false_ne_true h.1⟩
  rw [ofFile, hFormat]

end Description

theorem Graph.compile_error {d : Description} {strict : Bool} {e : Error}
    (h : compile d strict = .error e) : e.OfLoading := by
  have hJudged := d.judged_compile strict
  rw [h] at hJudged
  obtain ⟨element, fault?, hBlamed, -⟩ := hJudged.error_inv
  exact Error.ofLoading_of_blamed? hBlamed

/-! ### Running -/

namespace Engine

variable {W : Type}

theorem run_error {d : Description} {strict : Bool} {engine : Engine W}
    (hGraph : Graph.compile d strict = .ok engine.graph) {around : Surroundings W} {context : Object}
    {start : W} {e : Error} (h : (engine.run around context start).result = .error e) : e.OfRun := by
  obtain ⟨visits, hStops⟩ := run_stops hGraph around context start
  rw [h] at hStops
  obtain ⟨current, w, w', cause, -, -, rfl⟩ := hStops.error_inv
  exact ⟨rfl, rfl⟩

/-- Every error is told to be of the phase in which it occurs, but for one: if a file whose format is known
cannot be read although nothing says that it is missing, the error is not told to be one of loading. It is not
told to be one of a run either. -/
theorem errors_by_phase (W : Type) :
    (∀ json e, Description.ofJson json = .error e → e.OfLoading) ∧
    (∀ format text e, Description.ofText format text = .error e → e.OfLoading) ∧
    (∀ path file e, Description.ofFile path file = .error e → e.isExecutionFailure = false ∧
      (e.isLoadTime = true ↔ Format.ofPath? path = none ∨ ¬ file.Unread)) ∧
    (∀ d strict e, Graph.compile d strict = .error e → e.OfLoading) ∧
    (∀ (shop : Workshop W) graph e, shop.build graph = .error e → e.OfLoading) ∧
    (∀ graph (steps : Steps W) options e, create graph steps options = .error e → e.OfLoading) ∧
    (∀ (shop : Workshop W) graph options e, build shop graph options = .error e → e.OfLoading) ∧
    ∀ (d : Description) strict (engine : Engine W), Graph.compile d strict = .ok engine.graph →
      ∀ around context start e, (engine.run around context start).result = .error e → e.OfRun := by
  refine ⟨fun _ _ => Description.ofJson_error, fun _ _ _ => Description.ofText_error,
    fun _ _ _ => Description.ofFile_error, fun _ _ _ => Graph.compile_error, ?_, ?_, ?_,
    fun _ _ _ hGraph _ _ _ _ => run_error hGraph⟩
  · intro shop graph e h
    obtain ⟨flaw, rfl⟩ := Workshop.build_error h
    exact ⟨rfl, rfl⟩
  · intro graph steps options e h
    obtain ⟨name, -, -, rfl⟩ := create_error h
    exact ⟨rfl, rfl⟩
  · intro shop graph options e h
    obtain ⟨flaw, rfl⟩ := build_error h
    exact ⟨rfl, rfl⟩

/-- The second step cannot write what it has made. -/
private def diskless : Steps Unit where
  entries := [("s1", .assign .empty), ("s2", .custom "test" fun _ w => (.failed (.io "disk full"), w))]
  distinct := by decide

theorem errors_by_phase_diskless :
    (∃ e, Description.ofFile "flow.yaml" .missing = .error e ∧ e.isLoadTime = true) ∧
    (∃ e, Graph.compile (.startingAt " ") false = .error e ∧ e.OfLoading) ∧
    ∃ engine : Engine Unit, Graph.compile Sample.twoStep false = .ok engine.graph ∧
      ∃ e, (engine.run .still .empty ()).result = .error e ∧ e.OfRun := by
  have hFails : ((traceOf? Sample.twoStep diskless .standard .still .empty ()).bind Trace.error?).isSome =
      true := by decide +kernel
  obtain ⟨e, hError⟩ := Option.isSome_iff_exists.mp hFails
  obtain ⟨t, hTrace, hError⟩ := Option.bind_eq_some_iff.mp hError
  obtain ⟨engine, hGraph, -, rfl⟩ := exists_engine_of_traceOf? hTrace
  obtain ⟨-, -, hFile, hCompile, -, -, -, hRun⟩ := errors_by_phase Unit
  refine ⟨?_, ?_, engine, hGraph, ?_⟩
  · have hFormat : Format.ofPath? "flow.yaml" = some .yaml := by decide +kernel
    have hMissing : Description.ofFile "flow.yaml" .missing = .error (.processNotFound "flow.yaml") := by
      rw [Description.ofFile, hFormat]
    exact ⟨_, hMissing, (hFile _ _ _ hMissing).2.mpr (.inr nofun)⟩
  · have hBlank : Graph.compile (.startingAt " ") false = .error (.invalid .noStart) := rfl
    exact ⟨_, hBlank, hCompile _ _ _ hBlank⟩
  · have hResult := Trace.result_of_error? hError
    exact ⟨e, hResult, hRun _ _ _ hGraph _ _ _ _ hResult⟩

end Engine

end Stepwise
