/-
Sessions keep account of diagnostics: with a sink that collects, what was taken out and what is held at the end
are what the turns owe, in order; with any other sink the collector is left alone and every question is answered
the same.
-/
import Lanewise.Proofs.Analysis.Reports

namespace Lanewise

section
variable {V T : Type} {view : View V T} {sink : Sink} {c : Collector} {turn : Turn V T} {turns : List (Turn V T)}

/-! ## Turns -/

namespace Turn

def reports (view : View V T) : Turn V T → List Diagnostic
  | .ask q => (q.ask view).reports
  | .convert chain out => (view.convertIndices chain out).query.reports
  | .report d => [d]
  | .drain => []

theorem taken_perform (view : View V T) (c : Collector) (turn : Turn V T) :
    (turn.perform view .collecting c).1.taken ++ (turn.perform view .collecting c).2.held =
      c.held ++ turn.reports view := by
  cases turn with
  | ask q =>
    show [] ++ ((q.ask view).reports.foldl Sink.collecting.receive c).held = _
    rw [Sink.foldl_receive_collecting]
    rfl
  | convert chain out =>
    show [] ++ ((view.convertIndices chain out).query.reports.foldl Sink.collecting.receive c).held = _
    rw [Sink.foldl_receive_collecting]
    rfl
  | report d => rfl
  | drain => rfl

theorem perform_of_ne (hs : sink ≠ .collecting) (hd : turn.isDrain = false) :
    (turn.perform view sink c).2 = c := by
  cases turn with
  | ask q => exact Sink.foldl_receive_of_ne hs c _
  | convert chain out => exact Sink.foldl_receive_of_ne hs c _
  | report d => exact Sink.foldl_receive_of_ne hs c [d]
  | drain => cases hd

theorem perform_fst (hd : turn.isDrain = false) :
    (turn.perform view sink c).1 = (turn.perform view .discarding {}).1 := by
  cases turn with
  | drain => cases hd
  | _ => rfl

theorem perform_of_isDrain (hd : turn.isDrain = true) : (turn.perform view sink c).2 = {} := by
  cases turn with
  | drain => rfl
  | _ => cases hd

end Turn

/-! ## Sessions -/

namespace View

theorem session_cons : view.session sink c (turn :: turns) =
    ((turn.perform view sink c).1 :: (view.session sink (turn.perform view sink c).2 turns).1,
      (view.session sink (turn.perform view sink c).2 turns).2) := rfl

/-- What is taken in a session and what is held after it is what was held before and what the turns report. -/
theorem taken_session (view : View V T) (c : Collector) (turns : List (Turn V T)) :
    (view.session .collecting c turns).1.flatMap Outcome.taken ++ (view.session .collecting c turns).2.held =
      c.held ++ turns.flatMap (Turn.reports view) := by
  induction turns generalizing c with
  | nil => exact (List.append_nil _).symm
  | cons turn turns ih =>
    rw [session_cons, List.flatMap_cons, List.flatMap_cons, List.append_assoc, ih, ← List.append_assoc,
      turn.taken_perform, List.append_assoc]

theorem session_outcome {i : Nat} (h : turns[i]? = some turn) (hd : turn.isDrain = false) :
    (view.session sink c turns).1[i]? = some (turn.perform view .discarding {}).1 := by
  induction turns generalizing c i with
  | nil => cases h
  | cons t turns ih =>
    rw [session_cons]
    cases i with
    | zero =>
      cases h
      exact congrArg some (Turn.perform_fst hd)
    | succ i => exact ih h

theorem session_drain : (view.session sink c (turns ++ [.drain])).2 = {} := by
  induction turns generalizing c with
  | nil => rfl
  | cons turn turns ih => exact ih

theorem session_of_ne (hs : sink ≠ .collecting) :
    (view.session sink c turns).2 = if turns.any Turn.isDrain then {} else c := by
  induction turns generalizing c with
  | nil => rfl
  | cons turn turns ih =>
    rw [session_cons, ih, List.any_cons]
    cases hd : turn.isDrain with
    | true =>
      rw [Turn.perform_of_isDrain hd, Bool.true_or]
      split <;> rfl
    | false => rw [Turn.perform_of_ne hs hd, Bool.false_or]

end View

end

/-! ## Graphs -/

namespace Graph

variable {g : Graph}

theorem WF.reports_turn (hw : g.WF) (turn : Turn ValueId TypeId) :
    turn.reports g.view = (g.owed turn).toList := by
  cases turn with
  | ask q => exact hw.reports_ask q
  | convert chain out => exact View.convertFrom_silent chain 0 out
  | report d => rfl
  | drain => rfl

/-- A session on a graph keeps account of diagnostics: none is lost and none is told twice. -/
structure KeepsAccount (g : Graph) (c : Collector) (turns : List (Turn ValueId TypeId)) : Prop where
  account : (g.view.session .collecting c turns).1.flatMap Outcome.taken ++
    (g.view.session .collecting c turns).2.held = c.held ++ turns.flatMap fun turn => (g.owed turn).toList
  drained : (g.view.session .collecting c (turns ++ [.drain])).2.held = []
  noMask : ∀ (i : Nat) (v : ValueId), turns[i]? = some (.ask (.hasAllSet v)) →
    g.owed (.ask (.hasAllSet v)) ≠ none →
    (g.view.session .collecting c turns).1[i]? = some (.answered (.ok (.truth false)))
  alike : ∀ (sink : Sink) (c' : Collector) (i : Nat) (turn : Turn ValueId TypeId), turns[i]? = some turn →
    turn.isDrain = false →
    (g.view.session sink c' turns).1[i]? = (g.view.session .collecting c turns).1[i]?
  untouched : ∀ sink, sink ≠ .collecting →
    (g.view.session sink c turns).2 = if turns.any Turn.isDrain then {} else c

/-- Every session on a graph made by building keeps account of diagnostics. -/
theorem diagnostics_accounted (h : g.Reachable) (c : Collector) (turns : List (Turn ValueId TypeId)) :
    g.KeepsAccount c turns where
  account := by
    rw [View.taken_session, funext h.wf.reports_turn]
  drained := by rw [View.session_drain]
  noMask := by
    intro i v hi ho
    have hm : g.MaskMisread v := by
      by_contra hm
      exact ho (if_neg hm)
    have hr : (g.view.hasAllSet v).reports ≠ [] := by
      rw [h.wf.hasAllSet_reportsIf.told hm]
      exact List.cons_ne_nil _ _
    rw [View.session_outcome hi rfl]
    show some (Outcome.answered ((g.view.hasAllSet v >>= _ : Query Answer).answer)) = _
    rw [Query.answer_bind, View.hasAllSet_failsIfReported hr]
    rfl
  alike := fun sink c' i turn hi hd => (View.session_outcome hi hd).trans (View.session_outcome hi hd).symm
  untouched := fun sink hs => View.session_of_ne hs

/-- Commands that make a vector whose second lane is undefined. -/
def patchy : Graph :=
  [.intType 32, .vectorType ⟨0⟩ 3, .constInt ⟨0⟩ (-1), .undef ⟨0⟩, .constAggregate ⟨1⟩ [⟨0⟩, ⟨1⟩, ⟨1⟩]].foldl
    after empty

/-- The first of two undefined lanes is reported, a diagnostic of the asker's own comes after it and both are
taken; what is reported later is held. -/
theorem diagnostics_accounted_patchy : patchy.Reachable ∧
    patchy.owed (.ask (.hasAllSet ⟨2⟩)) = some .nonSimpleConstant ∧
    patchy.KeepsAccount {} [.ask (.hasAllSet ⟨2⟩), .report .nonSimpleConstant, .drain, .ask (.constantInt ⟨1⟩)] ∧
    (patchy.view.session .collecting {} [.ask (.hasAllSet ⟨2⟩), .report .nonSimpleConstant, .drain,
      .ask (.constantInt ⟨1⟩)]).2.held = [.nonSimpleConstant] := by
  have hr : patchy.Reachable := Reachable.empty.foldl_after _
  exact ⟨hr, by decide +kernel, diagnostics_accounted hr _ _, by decide +kernel⟩

end Graph

end Lanewise
