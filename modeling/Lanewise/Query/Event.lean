/-
What happens on the way to an answer and is worth telling: diagnostics for whoever asked, and traces
for the log.
-/
import Lanewise.Operation.Intrinsic
import Lanewise.Operation.Opcode

namespace Lanewise

/-! ## Diagnostics -/

inductive DiagnosticKind where
  | unsupportedFunctionality
  deriving DecidableEq, Repr

inductive DiagnosticAction where
  /-- The answer is a placeholder, and work goes on with it. -/
  | proceed
  deriving DecidableEq, Repr

structure Diagnostic where
  kind : DiagnosticKind
  message : String
  action : DiagnosticAction
  deriving DecidableEq, Repr

namespace Diagnostic

def nonSimpleConstantMessage : String := "non-simple constant"

/-- A literal was asked of something that is no folded literal of that sort. -/
def nonSimpleConstant : Diagnostic :=
  ⟨.unsupportedFunctionality, nonSimpleConstantMessage, .proceed⟩

/-- The kind, the message, and in parentheses the action. -/
def text (d : Diagnostic) : String :=
  let kind := match d.kind with
    | .unsupportedFunctionality => "unsupported functionality"
  let action := match d.action with
    | .proceed => "continuing"
  kind ++ ": " ++ d.message ++ " (" ++ action ++ ")"

end Diagnostic

/-! ## The log -/

/-- How loud a line of the log is, quietest first. -/
inductive LogLevel where
  | trace
  | debug
  | warn
  deriving DecidableEq, Repr

structure LogLine where
  level : LogLevel
  text : String
  deriving DecidableEq, Repr

/-! ## Events -/

inductive LiteralSort where
  | integer
  | float
  deriving DecidableEq, Repr

def LiteralSort.noun : LiteralSort → String
  | .integer => "integer"
  | .float => "float"

inductive Event where
  | classified (intrinsic : Intrinsic) (perComponent : Bool)
  | laneCountChanged (opcode : Opcode)
  | chainStopped (position : Nat)
  | zeroSubstituted (sort : LiteralSort)
  | reported (diagnostic : Diagnostic)
  | settingIgnored (setting : String) (unknown : Text.UnknownWord)
  deriving DecidableEq

namespace Event

/-- Where a diagnostic goes, and with which line, is for its receiver to say. -/
def line? : Event → Option LogLine
  | .classified intrinsic perComponent =>
    some ⟨.trace, "intrinsic " ++ intrinsic.name ++ " per-component: " ++ toString perComponent⟩
  | .laneCountChanged opcode => some ⟨.trace, opcode.name ++ " changes lane count, not per-component"⟩
  | .chainStopped position =>
    some ⟨.trace, "access chain stops at non-constant index " ++ toString position⟩
  | .zeroSubstituted sort =>
    some ⟨.debug, "expected a folded " ++ sort.noun ++ " literal, substituting zero"⟩
  | .reported _ => none
  | .settingIgnored setting unknown => some ⟨.warn, "ignoring " ++ setting ++ ": " ++ unknown.message⟩

def report? : Event → Option Diagnostic
  | .reported diagnostic => some diagnostic
  | _ => none

end Event

end Lanewise
