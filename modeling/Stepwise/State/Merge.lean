import Stepwise.State.Basic
import Stepwise.Json.Merge

/-!
Applying deltas. Namespaces are merged deeply and logs are concatenated, so the log only grows.
-/

namespace Stepwise

/-- The state after a step that returned this delta. -/
def State.apply (s : State) (d : Delta) : State where
  context := s.context.merge d.context
  artifacts := s.artifacts.merge d.artifacts
  quality := s.quality.merge d.quality
  log := s.log ++ d.log

/-- One delta for two in a row, by the same rules. -/
def Delta.combine (first later : Delta) : Delta where
  context := first.context.merge later.context
  artifacts := first.artifacts.merge later.artifacts
  quality := first.quality.merge later.quality
  log := first.log ++ later.log

/-- Apply deltas in order. -/
def State.fold (s : State) (deltas : List Delta) : State :=
  deltas.foldl State.apply s

end Stepwise
