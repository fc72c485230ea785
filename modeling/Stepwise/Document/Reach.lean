/-!
The parts of a document that a reader looks at. Whatever lies elsewhere has no effect, so it need not have a
meaning either.
-/

namespace Stepwise

inductive Reach where
  | nothing
  | everything
  /-- A map; under some keys, each with what is looked at there. -/
  | fields (keys : List (String × Reach))
  /-- A map; the same under every key. -/
  | values (each : Reach)
  /-- A list; the same in every item. -/
  | items (each : Reach)

namespace Reach

/-- What is looked at under a key of a map. -/
def underKey (key : String) : Reach → Reach
  | .everything => .everything
  | .fields keys => (keys.lookup key).getD .nothing
  | .values each => each
  | .nothing | .items _ => .nothing

/-- What is looked at in an item of a list. -/
def inItem : Reach → Reach
  | .everything => .everything
  | .items each => each
  | .nothing | .fields _ | .values _ => .nothing

end Reach

end Stepwise
