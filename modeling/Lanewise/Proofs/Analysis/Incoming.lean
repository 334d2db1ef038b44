/-
Incoming values as a set. What the walks answer is told by what the descent reaches, so it depends neither on the
order nor on the number of times that a value comes in; and what is all defined with some incoming values is all
defined with fewer (`incoming_as_set`).
-/
import Lanewise.Proofs.Analysis.Depth

namespace Lanewise.Graph

variable {g g' : Graph} {v w x p : ValueId} {node : Node} {incoming incoming' : List ValueId}

/-! ## Graphs with more operands -/

/-- The second graph has the values of the first, as they are but for operands, and each of them has there the
operands that it has in the first. -/
structure Covered (g g' : Graph) : Prop where
  hasValue : ∀ v, g'.HasValue v ↔ g.HasValue v
  isUndef : ∀ v, g'.IsUndef v ↔ g.IsUndef v
  isAggregate : ∀ v, g'.IsAggregate v ↔ g.IsAggregate v
  uses : ∀ v w, g.Uses v w → g'.Uses v w

namespace Covered

variable (h : g.Covered g')
include h

theorem descends (hd : g.view.Descends v w) : g'.view.Descends v w := by
  obtain ⟨ha, hu⟩ := descends_iff_uses.1 hd
  exact descends_iff_uses.2 ⟨(h.isAggregate v).2 ha, h.uses v w hu⟩

theorem reaches (hr : g.view.Reaches v x) : g'.view.Reaches v x :=
  Relation.ReflTransGen.mono (fun _ _ => h.descends) _ _ hr

/-- Fewer operands close no cycle. -/
theorem acyclic (ha : g'.view.Acyclic v) : g.view.Acyclic v :=
  fun u hu hc => ha u (h.reaches hu) (Relation.TransGen.mono (fun _ _ => h.descends) _ _ hc)

theorem allDefined (hw : g.WF) (hw' : g'.WF) (hv : g.HasValue v) (ha : g'.view.Acyclic v)
    (hd : g'.view.allDefined v = .ok true) : g.view.allDefined v = .ok true := by
  rw [hw'.allDefined_eq_true_iff ((h.hasValue v).2 hv) ha] at hd
  rw [hw.allDefined_eq_true_iff hv (h.acyclic ha)]
  intro x hx hu
  exact hd x (h.reaches hx) ((h.isUndef x).2 hu)

theorem allUndefinedDeep (hw : g.WF) (hw' : g'.WF) (hv : g.HasValue v) (ha : g'.view.Acyclic v)
    (hsome : ∀ x, (∃ w, g'.Uses x w) → ∃ w, g.Uses x w)
    (hd : g'.view.allUndefinedDeep v = .ok true) : g.view.allUndefinedDeep v = .ok true := by
  rw [hw'.allUndefinedDeep_eq_true_iff ((h.hasValue v).2 hv) ha] at hd
  rw [hw.allUndefinedDeep_eq_true_iff hv (h.acyclic ha)]
  intro x hx hc
  refine (h.isUndef x).1 (hd x (h.reaches hx) ?_)
  rw [IsClosed, h.isUndef, h.isAggregate]
  refine hc.imp_right (Or.imp_right fun hnone w hw => ?_)
  obtain ⟨u, hu⟩ := hsome x ⟨w, hw⟩
  exact hnone u hu

end Covered

/-! ## Incoming values -/

theorem exists_node?_withIncoming (g : Graph) (p : ValueId) (incoming : List ValueId) (v : ValueId) :
    ∃ revise : Node → Node, (g.withIncoming p incoming).node? v = (g.node? v).map revise ∧
      ∀ node, (revise node).type = node.type ∧ (revise node).content.kind = node.content.kind := by
  rw [node?_withIncoming]
  split
  · exact ⟨_, rfl, fun node => ⟨rfl, Content.kind_withOperands _ _⟩⟩
  · exact ⟨id, Option.map_id_apply.symm, fun node => ⟨rfl, rfl⟩⟩

theorem hasValue_withIncoming : (g.withIncoming p incoming).HasValue v ↔ g.HasValue v := by
  obtain ⟨revise, hn, -⟩ := exists_node?_withIncoming g p incoming v
  simp [HasValue, hn]

theorem isUndef_withIncoming : (g.withIncoming p incoming).IsUndef v ↔ g.IsUndef v := by
  obtain ⟨revise, hn, hkeeps⟩ := exists_node?_withIncoming g p incoming v
  simp [IsUndef, hn, hkeeps]

theorem isAggregate_withIncoming : (g.withIncoming p incoming).IsAggregate v ↔ g.IsAggregate v := by
  obtain ⟨revise, hn, hkeeps⟩ := exists_node?_withIncoming g p incoming v
  simp [IsAggregate, hn, hkeeps]

theorem uses_withIncoming (hp : g.IsPhi p) :
    (g.withIncoming p incoming).Uses v w ↔ if p = v then w ∈ incoming else g.Uses v w := by
  by_cases he : p = v
  · subst he
    obtain ⟨node, hn, hphi⟩ := hp
    have hn' : (g.withIncoming p incoming).node? p =
        some { node with content := node.content.withOperands incoming.toArray } := by
      rw [node?_withIncoming, if_pos rfl, hn]
      rfl
    rw [uses_iff hn', Content.operands_withOperands _ hphi, List.mem_toArray, if_pos rfl]
  · rw [Uses, node?_withIncoming, if_neg he, if_neg he]
    rfl

theorem withIncoming_covered (hp : g.IsPhi p) (hsub : ∀ w ∈ incoming, w ∈ incoming') :
    (g.withIncoming p incoming).Covered (g.withIncoming p incoming') where
  hasValue v := by rw [hasValue_withIncoming, hasValue_withIncoming]
  isUndef v := by rw [isUndef_withIncoming, isUndef_withIncoming]
  isAggregate v := by rw [isAggregate_withIncoming, isAggregate_withIncoming]
  uses v w := by
    rw [uses_withIncoming hp, uses_withIncoming hp]
    split
    · exact hsub w
    · exact id

theorem of_setPhiIncoming (h : (Command.setPhiIncoming p incoming).perform g = (.ok .done, g')) :
    g.IsPhi p ∧ g' = g.withIncoming p incoming ∧ (g.WF → g'.WF) := by
  have ha : g.Accepts (.setPhiIncoming p incoming) .done g' := perform_eq_ok_iff.1 h
  have hw : g.WF → g'.WF := ha.wf
  cases ha with
  | setPhiIncoming hn hphi => exact ⟨⟨_, hn, hphi⟩, rfl, hw⟩

/-! ## Two lists of incoming values -/

/-- The walks from a value are answered on both graphs, and alike. -/
structure AnsweredAlike (g g' : Graph) (v : ValueId) : Prop where
  allDefined : ∃ b, g.view.allDefined v = .ok b ∧ g'.view.allDefined v = .ok b
  allUndefinedDeep : ∃ b, g.view.allUndefinedDeep v = .ok b ∧ g'.view.allUndefinedDeep v = .ok b

/-- The walk for anything undefined is answered on both graphs, and what is all defined on the second is so on the
first. -/
def DefinedIfDefined (g g' : Graph) (v : ValueId) : Prop :=
  ∃ b b', g.view.allDefined v = .ok b ∧ g'.view.allDefined v = .ok b' ∧ (b' = true → b = true)

theorem Covered.definedIfDefined (h : g.Covered g') (hw : g.WF) (hw' : g'.WF) (hv : g.HasValue v)
    (ha : g'.view.Acyclic v) : g.DefinedIfDefined g' v := by
  obtain ⟨b, -, hb, -⟩ := hw.walksExclusive hv (h.acyclic ha)
  obtain ⟨b', -, hb', -⟩ := hw'.walksExclusive ((h.hasValue v).2 hv) ha
  refine ⟨b, b', hb, hb', ?_⟩
  rintro rfl
  exact Except.ok.inj (hb.symm.trans (h.allDefined hw hw' hv ha hb'))

theorem Covered.answeredAlike (h : g.Covered g') (h' : g'.Covered g) (hw : g.WF) (hw' : g'.WF)
    (hv : g.HasValue v) (ha' : g'.view.Acyclic v) : g.AnsweredAlike g' v := by
  have hv' : g'.HasValue v := (h.hasValue v).2 hv
  have ha : g.view.Acyclic v := h.acyclic ha'
  have huses : ∀ x, (∃ w, g.Uses x w) ↔ ∃ w, g'.Uses x w :=
    fun x => exists_congr fun w => ⟨h.uses x w, h'.uses x w⟩
  obtain ⟨b, c, hb, hc, -⟩ := hw.walksExclusive hv ha
  obtain ⟨b', c', hb', hc', -⟩ := hw'.walksExclusive hv' ha'
  constructor
  · refine ⟨b, hb, (eq_of_answers ⟨b', hb'⟩ ⟨b, hb⟩ ?_).trans hb⟩
    exact ⟨h.allDefined hw hw' hv ha', h'.allDefined hw' hw hv' ha⟩
  · refine ⟨c, hc, (eq_of_answers ⟨c', hc'⟩ ⟨c, hc⟩ ?_).trans hc⟩
    exact ⟨h.allUndefinedDeep hw hw' hv ha' fun x => (huses x).2,
      h'.allUndefinedDeep hw' hw hv' ha fun x => (huses x).1⟩

/-- With the same incoming values, in whatever order and however often, both walks answer alike; and what is all
defined with more of them is all defined with fewer. -/
theorem incoming_as_set {g₁ g₂ : Graph} (h : g.Reachable)
    (h₁ : (Command.setPhiIncoming p incoming).perform g = (.ok .done, g₁))
    (h₂ : (Command.setPhiIncoming p incoming').perform g = (.ok .done, g₂)) (hv : g.HasValue v)
    (ha : g₂.view.Acyclic v) :
    ((∀ w, w ∈ incoming ↔ w ∈ incoming') → g₁.view.Acyclic v ∧ g₁.AnsweredAlike g₂ v) ∧
      ((∀ w ∈ incoming, w ∈ incoming') → g₁.view.Acyclic v ∧ g₁.DefinedIfDefined g₂ v) := by
  obtain ⟨hp, rfl, hw₁⟩ := of_setPhiIncoming h₁
  obtain ⟨-, rfl, hw₂⟩ := of_setPhiIncoming h₂
  have hv₁ : (g.withIncoming p incoming).HasValue v := hasValue_withIncoming.2 hv
  constructor
  · intro hset
    have hc := withIncoming_covered hp fun w => (hset w).1
    have hc' := withIncoming_covered hp fun w => (hset w).2
    exact ⟨hc.acyclic ha, hc.answeredAlike hc' (hw₁ h.wf) (hw₂ h.wf) hv₁ ha⟩
  · intro hsub
    have hc := withIncoming_covered hp hsub
    exact ⟨hc.acyclic ha, hc.definedIfDefined (hw₁ h.wf) (hw₂ h.wf) hv₁ ha⟩

/-- A sum of a phi of vectors and a vector of literals, beside another such vector and an undefined one. -/
def joining : Graph :=
  [.intType 8, .vectorType ⟨0⟩ 2, .constInt ⟨0⟩ 1, .constSplat ⟨1⟩ ⟨0⟩, .constSplat ⟨1⟩ ⟨0⟩, .undef ⟨1⟩, .phi ⟨1⟩,
    .instruction ⟨1⟩ .add [⟨4⟩, ⟨1⟩]].foldl after empty

def joiningOf (incoming : List ValueId) : Graph :=
  joining.withIncoming ⟨4⟩ incoming

/-- The sum is all defined with one of two vectors of literals since it is with both, and never with the undefined
one. -/
theorem incoming_as_set_joining : joining.Reachable ∧ joining.HasValue ⟨5⟩ ∧
    (joiningOf [⟨1⟩, ⟨3⟩, ⟨1⟩]).view.Acyclic ⟨5⟩ ∧ (joiningOf [⟨1⟩, ⟨2⟩]).view.Acyclic ⟨5⟩ ∧
    (joiningOf [⟨3⟩, ⟨1⟩]).view.allDefined ⟨5⟩ = .ok false ∧ (joiningOf [⟨2⟩]).view.allDefined ⟨5⟩ = .ok true := by
  have hr : joining.Reachable := Reachable.empty.foldl_after _
  have hv : joining.HasValue ⟨5⟩ := exists_node? (by decide +kernel)
  have hswapped : (Command.setPhiIncoming ⟨4⟩ [⟨3⟩, ⟨1⟩]).perform joining = (.ok .done, joiningOf [⟨3⟩, ⟨1⟩]) := rfl
  have hrepeated : (Command.setPhiIncoming ⟨4⟩ [⟨1⟩, ⟨3⟩, ⟨1⟩]).perform joining =
    (.ok .done, joiningOf [⟨1⟩, ⟨3⟩, ⟨1⟩]) := rfl
  have hone : (Command.setPhiIncoming ⟨4⟩ [⟨2⟩]).perform joining = (.ok .done, joiningOf [⟨2⟩]) := rfl
  have hboth : (Command.setPhiIncoming ⟨4⟩ [⟨1⟩, ⟨2⟩]).perform joining = (.ok .done, joiningOf [⟨1⟩, ⟨2⟩]) := rfl
  have ha : (joiningOf [⟨1⟩, ⟨3⟩, ⟨1⟩]).view.Acyclic ⟨5⟩ := acyclic_of_operands_older (by decide +kernel) _
  have ha' : (joiningOf [⟨1⟩, ⟨2⟩]).view.Acyclic ⟨5⟩ := acyclic_of_operands_older (by decide +kernel) _
  have hundef : (joiningOf [⟨1⟩, ⟨3⟩, ⟨1⟩]).view.allDefined ⟨5⟩ = .ok false := by decide +kernel
  have hdefined : (joiningOf [⟨1⟩, ⟨2⟩]).view.allDefined ⟨5⟩ = .ok true := by decide +kernel
  refine ⟨hr, hv, ha, ha', ?_, ?_⟩
  · obtain ⟨-, ⟨b, hb, hb'⟩, -⟩ := (incoming_as_set hr hswapped hrepeated hv ha).1 (by simp)
    rw [hb, hb'.symm.trans hundef]
  · obtain ⟨-, b, b', hb, hb', hmono⟩ := (incoming_as_set hr hone hboth hv ha').2 (by simp)
    rw [hb, hmono (Except.ok.inj (hb'.symm.trans hdefined))]

end Lanewise.Graph
