/-
The numbers behind folded literals. Whatever is no folded literal of the sort asked for is answered
with zero, after a diagnostic.
-/
import Lanewise.Number.Word
import Lanewise.Query.Basic
import Lanewise.View.Basic

namespace Lanewise

/-- Tells that zero stands for a literal, and reports it. -/
def Query.substituteZero (sort : LiteralSort) : Query Unit := do
  Query.tell (.zeroSubstituted sort)
  Query.tell (.reported .nonSimpleConstant)

namespace View

variable {V T : Type}

/-- An integer literal narrowed to 32 bits, modulo `2 ^ 32`. -/
def constantInt (view : View V T) (v : V) : Query Int32 := do
  match ← view.intLiteral v with
  | some value => return narrow value
  | none => do
    Query.substituteZero .integer
    return 0

/-- A float literal rounded to single precision. -/
def constantFloat (view : View V T) (v : V) : Query (Binary .single) := do
  match ← view.floatLiteral v with
  | some literal => return literal.toSingle
  | none => do
    Query.substituteZero .float
    return .zero

def constantDouble (view : View V T) (v : V) : Query (Binary .double) := do
  match ← view.floatLiteral v with
  | some literal => return literal.toDouble
  | none => do
    Query.substituteZero .float
    return .zero

end View

end Lanewise
