/-
Sessions: what is done in turn with one view, one sink and one collector.
-/
import Lanewise.Analysis.Inquiry
import Lanewise.Query.Sink

namespace Lanewise

inductive Turn (V T : Type) where
  | ask (q : Inquiry V T)
  | convert (chain : List V) (out : List UInt32)
  | report (d : Diagnostic)
  | drain

inductive Outcome where
  | answered (answer : Except Fault Answer)
  | converted (out : List UInt32) (written : Except Fault (Except NonConstantIndex Nat))
  | reported
  | drained (taken : List Diagnostic)

namespace Outcome

/-- The diagnostics that a turn took out of the collector. -/
def taken : Outcome → List Diagnostic
  | .drained ds => ds
  | _ => []

end Outcome

namespace Turn

variable {V T : Type}

def isDrain : Turn V T → Bool
  | .drain => true
  | _ => false

/-- What a turn gives back, and the collector after it. -/
def perform (view : View V T) (sink : Sink) (c : Collector) : Turn V T → Outcome × Collector
  | .ask q =>
    let d := (q.ask view).deliver sink c
    (.answered d.answer, d.collector)
  | .convert chain out =>
    let conversion := view.convertIndices chain out
    let d := conversion.query.deliver sink c
    (.converted conversion.out d.answer, d.collector)
  | .report d => (.reported, sink.receive c d)
  | .drain => (.drained c.drain.1, c.drain.2)

end Turn

def View.session {V T : Type} (view : View V T) (sink : Sink) :
    Collector → List (Turn V T) → List Outcome × Collector
  | c, [] => ([], c)
  | c, turn :: turns =>
    let (outcome, c) := turn.perform view sink c
    let (outcomes, c) := view.session sink c turns
    (outcome :: outcomes, c)

end Lanewise
