/-
Where the diagnostics of queries go, and the delivery of a query to a sink: its answer, the lines it
leaves in the log, and the collector after it.
-/
import Lanewise.Query.Basic

namespace Lanewise

/-- The diagnostics received and not yet taken, oldest first. -/
structure Collector where
  held : List Diagnostic := []
  deriving DecidableEq, Repr

namespace Collector

def size (c : Collector) : Nat :=
  c.held.length

def isEmpty (c : Collector) : Bool :=
  c.held.isEmpty

def add (c : Collector) (d : Diagnostic) : Collector :=
  ⟨c.held ++ [d]⟩

def drain (c : Collector) : List Diagnostic × Collector :=
  (c.held, {})

end Collector

inductive Sink where
  | collecting
  | discarding
  | logging
  deriving DecidableEq, Repr

namespace Sink

/-- The line that the receipt of a diagnostic leaves in the log. -/
def receipt? : Sink → Diagnostic → Option LogLine
  | .collecting, d => some ⟨.debug, "collected diagnostic: " ++ d.text⟩
  | .discarding, _ => none
  | .logging, d => some ⟨.warn, d.text⟩

def line? (sink : Sink) (e : Event) : Option LogLine :=
  match e.report? with
  | some d => sink.receipt? d
  | none => e.line?

def receive : Sink → Collector → Diagnostic → Collector
  | .collecting, c, d => c.add d
  | _, c, _ => c

theorem foldl_receive_collecting (c : Collector) (ds : List Diagnostic) :
    ds.foldl collecting.receive c = ⟨c.held ++ ds⟩ := by
  induction ds generalizing c with
  | nil => simp
  | cons d ds ih => simp [ih, receive, Collector.add]

theorem foldl_receive_of_ne {sink : Sink} (h : sink ≠ .collecting) (c : Collector) (ds : List Diagnostic) :
    ds.foldl sink.receive c = c := by
  induction ds with
  | nil => rfl
  | cons d ds ih => cases sink <;> simp_all [receive]

end Sink

/-- What a query leaves behind once its diagnostics are received. -/
structure Delivery (α : Type) where
  answer : Except Fault α
  log : List LogLine
  collector : Collector

def Query.deliver {α : Type} (q : Query α) (sink : Sink) (c : Collector) : Delivery α where
  answer := q.answer
  log := q.events.filterMap sink.line?
  collector := q.reports.foldl sink.receive c

end Lanewise
