/-
Which values are defined or undefined, looking through aggregates. A walk that descends more often than the IR has
values has been around a cycle and faults.
-/
import Lanewise.Analysis.Inspect
import Lanewise.Settings

namespace Lanewise

namespace View

variable {V T : Type}

/-- Whether nothing undefined is found within `depth - 1` descents. -/
def allDefinedWithin (view : View V T) : Nat → V → Except Fault Bool
  | 0, _ => throw .endlessDescent
  | depth + 1, v => do
    if ← view.isUndef v then return false
    else if (← view.valueShape v).isAggregate then
      (← view.operands v).allM (view.allDefinedWithin depth)
    else return true

/-- False if the value, or anything found by descending from it, is undefined. -/
def allDefined (view : View V T) (v : V) : Except Fault Bool :=
  view.allDefinedWithin (view.values.length + 1) v

/-- True only if the value itself is undefined. An aggregate of undefined elements is not. -/
def allUndefined (view : View V T) (v : V) : Except Fault Bool :=
  view.isUndef v

def allUndefinedDeepWithin (view : View V T) : Nat → V → Except Fault Bool
  | 0, _ => throw .endlessDescent
  | depth + 1, v => do
    if ← view.isUndef v then return true
    else if (← view.valueShape v).isAggregate then
      if (← view.operandCount v) = 0 then return false
      else (← view.operands v).allM (view.allUndefinedDeepWithin depth)
    else return false

/-- True if the value is undefined, or is an aggregate of at least one element and all its elements
are undefined in the same sense. -/
def allUndefinedDeep (view : View V T) (v : V) : Except Fault Bool :=
  view.allUndefinedDeepWithin (view.values.length + 1) v

def fullyUndefined (view : View V T) : UndefinedCheck → V → Except Fault Bool
  | .topLevel, v => view.allUndefined v
  | .recursive, v => view.allUndefinedDeep v

end View

end Lanewise
