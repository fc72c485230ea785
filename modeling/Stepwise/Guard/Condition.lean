import Stepwise.Guard.Evaluation

/-!
Compiled conditions. Blank text compiles to the condition that never holds.
-/

namespace Stepwise

structure Condition where
  /-- The text without blanks around it. -/
  source : String
  expr? : Option Guard.Expr

namespace Condition

/-- The condition that never holds. -/
def never : Condition := ⟨"", none⟩

/-- Whether the condition came from blank text. -/
def isEmpty (c : Condition) : Bool := c.expr?.isNone

/-- Compile a text; it is split into tokens as a whole before it is parsed. -/
def compile (text : String) : Except Guard.Fault Condition :=
  let source := Text.trimChars text.toList
  if source.isEmpty then
    .ok never
  else do
    let tokens ← Guard.tokens source
    let expr ← Guard.parse tokens (Text.byteLength source)
    return ⟨String.ofList source, some expr⟩

def holds (c : Condition) (s : State) : Bool :=
  match c.expr? with
  | some expr => expr.holds s
  | none => false

end Condition

end Stepwise
