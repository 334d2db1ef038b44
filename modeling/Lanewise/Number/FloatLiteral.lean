/-
Floating point literals: a double tagged with the precision it was written in.
-/
import Lanewise.Number.Rounding

namespace Lanewise

/-- A literal keeps its value as a double. `ofDouble` makes the literals whose value the precision can
represent; an IR that keeps its own literals may hold others. -/
structure FloatLiteral where
  precision : Precision
  value : Binary .double
  deriving DecidableEq, Repr

namespace FloatLiteral

/-- A literal rounds once, to its precision, when it is made. -/
def ofDouble (precision : Precision) (x : Binary .double) : FloatLiteral :=
  ⟨precision, (x.convert precision).convert .double⟩

/-- The value in single precision, exact for a half or single literal. -/
def toSingle (l : FloatLiteral) : Binary .single :=
  l.value.convert .single

def toDouble (l : FloatLiteral) : Binary .double :=
  l.value

end FloatLiteral

end Lanewise
