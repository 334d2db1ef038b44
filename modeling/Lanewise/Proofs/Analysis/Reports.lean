/-
What the analyses report. Only the questions for the number behind a literal and for a mask report anything, each
of them at most once. What a query owes is told by the contents of values (`owed`), and every query reports just
what it owes (`WF.reports_ask`).
-/
import Lanewise.Analysis.Session
import Lanewise.Proofs.Analysis.Mask
import Lanewise.Proofs.Number.Word

namespace Lanewise

/-! ## Reports of a query -/

namespace Query

variable {α β : Type} {q : Query α} {next : α → Query β} {p p' : Prop}

theorem reports_bind_of_answer {a : α} (h : q.answer = .ok a) :
    (q >>= next).reports = q.reports ++ (next a).reports := by
  obtain ⟨es, answer⟩ := q
  cases h
  exact reports_bind_ok es a next

theorem reports_bind_of_fault {fault : Fault} (h : q.answer = .error fault) :
    (q >>= next).reports = q.reports := by
  obtain ⟨es, answer⟩ := q
  cases h
  rfl

/-- The query reports no diagnostic. -/
def Silent (q : Query α) : Prop :=
  q.reports = []

theorem Silent.pure (a : α) : (Pure.pure a : Query α).Silent := rfl

theorem Silent.read (r : Except Fault α) : (liftM r : Query α).Silent := rfl

theorem Silent.fail (fault : Fault) : (Query.fail fault : Query α).Silent := rfl

theorem Silent.tell {e : Event} (h : e.report? = none) : (Query.tell e).Silent := by
  rw [Silent, reports, Query.tell, List.filterMap_cons_none h]
  rfl

theorem reports_bind_silent (hn : ∀ a, (next a).Silent) : (q >>= next).reports = q.reports := by
  cases ha : q.answer with
  | error fault => exact reports_bind_of_fault ha
  | ok a => rw [reports_bind_of_answer ha, hn a, List.append_nil]

theorem Silent.bind (h : q.Silent) (hn : ∀ a, (next a).Silent) : (q >>= next).Silent :=
  (reports_bind_silent hn).trans h

/-- The query reports that a literal is none just when the proposition holds, and nothing else. -/
structure ReportsIf (q : Query α) (p : Prop) : Prop where
  told : p → q.reports = [.nonSimpleConstant]
  silent : ¬ p → q.Silent

namespace ReportsIf

theorem of_silent (h : q.Silent) (hp : ¬ p) : q.ReportsIf p :=
  ⟨fun h' => absurd h' hp, fun _ => h⟩

theorem congr (h : q.ReportsIf p) (hp : p ↔ p') : q.ReportsIf p' :=
  ⟨fun h' => h.told (hp.2 h'), fun h' => h.silent fun h'' => h' (hp.1 h'')⟩

theorem of_reports_eq {q' : Query β} (h : q.ReportsIf p) (hr : q'.reports = q.reports) : q'.ReportsIf p :=
  ⟨fun hp => hr.trans (h.told hp), fun hp => hr.trans (h.silent hp)⟩

theorem bind_silent (h : q.ReportsIf p) (hn : ∀ a, (next a).Silent) : (q >>= next).ReportsIf p :=
  h.of_reports_eq (reports_bind_silent hn)

theorem reports_eq [Decidable p] (h : q.ReportsIf p) :
    q.reports = (if p then some .nonSimpleConstant else none : Option Diagnostic).toList := by
  split
  · rename_i hp
    exact h.told hp
  · rename_i hp
    exact h.silent hp

end ReportsIf

/-- A query that reports something answers that its test fails. -/
def FailsIfReported (q : Query Bool) : Prop :=
  q.reports ≠ [] → q.answer = .ok false

theorem Silent.failsIfReported {q : Query Bool} (h : q.Silent) : q.FailsIfReported :=
  fun hr => absurd h hr

theorem FailsIfReported.silent {q : Query Bool} (h : q.FailsIfReported) (ha : q.answer = .ok true) : q.Silent := by
  by_contra hr
  rw [h hr] at ha
  cases ha

theorem FailsIfReported.read_bind {r : Except Fault α} {next : α → Query Bool}
    (h : ∀ a, (next a).FailsIfReported) : ((liftM r : Query α) >>= next).FailsIfReported := by
  intro hr
  cases r with
  | error fault => exact absurd rfl hr
  | ok a => exact h a hr

theorem FailsIfReported.and {q q' : Query Bool} (h : q.FailsIfReported) (h' : q'.FailsIfReported) :
    (q >>= fun b => if b = true then q' else return false).FailsIfReported := by
  intro hr
  rw [answer_bind]
  cases ha : q.answer with
  | error fault =>
    -- a test that faults has reported nothing
    rw [reports_bind_of_fault ha] at hr
    rw [h hr] at ha
    cases ha
  | ok b =>
    rw [reports_bind_of_answer ha] at hr
    cases b with
    | false => rfl
    | true =>
      rw [h.silent ha, List.nil_append] at hr
      exact h' hr

end Query

/-! ## The analyses of any IR -/

namespace View

open Query

variable {V T : Type} {view : View V T} {v : V}

theorem castKeepsLanes_silent (opcode : Opcode) : (view.castKeepsLanes v opcode).Silent := by
  refine Silent.bind (.read _) fun source => ?_
  cases source with
  | none => exact .pure false
  | some source =>
    refine Silent.bind (.read _) fun before => Silent.bind (.read _) fun after => ?_
    show (if before = after then _ else _ : Query Bool).Silent
    split
    · exact .pure true
    · exact Silent.bind (.tell rfl) fun _ => .pure false

theorem isPerComponentInstruction_silent : (view.isPerComponentInstruction v).Silent := by
  refine Silent.bind (.read _) fun intrinsic => ?_
  cases intrinsic with
  | some intrinsic => exact Silent.bind (.tell rfl) fun _ => .pure _
  | none =>
    refine Silent.bind (.read _) fun opcode => ?_
    cases opcode with
    | none => exact .pure false
    | some opcode =>
      show (if opcode.isTerminator = true then _ else if opcode.isCast = true then _ else _ : Query Bool).Silent
      split
      · exact .pure false
      split
      · exact castKeepsLanes_silent opcode
      · exact .pure _

theorem isPerComponentOperation_silent : (view.isPerComponentOperation v).Silent := by
  refine Silent.bind (.read _) fun kind => ?_
  show (if kind = .instruction then _ else _ : Query Bool).Silent
  split
  · exact isPerComponentInstruction_silent
  · exact .pure false

theorem convertFrom_silent (chain : List V) :
    ∀ (position : Nat) (out : List UInt32), (view.convertFrom position chain out).query.Silent := by
  induction chain with
  | nil => exact fun _ _ => .pure _
  | cons v chain ih =>
    intro position out
    unfold convertFrom
    split
    · exact .fail _
    · exact Silent.bind (.tell rfl) fun _ => .pure _
    · cases out with
      | nil => exact .fail _
      | cons x out => exact ih (position + 1) out

theorem collectIndices_silent (chain : List V) : (view.collectIndices chain).Silent := by
  refine Silent.bind (convertFrom_silent chain _ _) fun result => ?_
  cases result <;> exact .pure _

theorem constantInt_reportsIf : (view.constantInt v).ReportsIf (view.intLiteral v = .ok none) := by
  unfold constantInt
  rcases view.intLiteral v with fault | _ | value
  · exact .of_silent rfl (by rintro ⟨⟩)
  · exact ⟨fun _ => rfl, fun h => absurd rfl h⟩
  · exact .of_silent rfl (by rintro ⟨⟩)

theorem constantFloat_reportsIf : (view.constantFloat v).ReportsIf (view.floatLiteral v = .ok none) := by
  unfold constantFloat
  rcases view.floatLiteral v with fault | _ | literal
  · exact .of_silent rfl (by rintro ⟨⟩)
  · exact ⟨fun _ => rfl, fun h => absurd rfl h⟩
  · exact .of_silent rfl (by rintro ⟨⟩)

theorem constantDouble_reportsIf : (view.constantDouble v).ReportsIf (view.floatLiteral v = .ok none) := by
  unfold constantDouble
  rcases view.floatLiteral v with fault | _ | literal
  · exact .of_silent rfl (by rintro ⟨⟩)
  · exact ⟨fun _ => rfl, fun h => absurd rfl h⟩
  · exact .of_silent rfl (by rintro ⟨⟩)

theorem bitsSet_reportsIf : (view.bitsSet v).ReportsIf (view.intLiteral v = .ok none) :=
  constantInt_reportsIf.bind_silent fun _ => .pure _

theorem bitsSet_failsIfReported : (view.bitsSet v).FailsIfReported := by
  intro h
  have hl : view.intLiteral v = .ok none := by
    by_contra hl
    exact h (bitsSet_reportsIf.silent hl)
  rw [bitsSet, constantInt, hl]
  rfl

theorem lanesSet_failsIfReported (lane n : Nat) : (view.lanesSet v lane n).FailsIfReported := by
  induction n generalizing lane with
  | zero => exact (Silent.pure true).failsIfReported
  | succ n ih =>
    refine FailsIfReported.read_bind fun element => ?_
    cases element with
    | none => exact (Silent.pure false).failsIfReported
    | some element => exact bitsSet_failsIfReported.and (ih (lane + 1))

theorem hasAllSet_failsIfReported : (view.hasAllSet v).FailsIfReported := by
  refine FailsIfReported.read_bind fun constant => ?_
  cases constant with
  | false => exact (Silent.pure false).failsIfReported
  | true =>
    refine FailsIfReported.read_bind fun shape => ?_
    show (if shape.isScalar = true then _ else _ : Query Bool).FailsIfReported
    split
    · exact bitsSet_failsIfReported
    refine FailsIfReported.read_bind fun kind => ?_
    show (if kind = .constantAggregate ∧ shape.isVector = true then _ else _ : Query Bool).FailsIfReported
    split
    · exact lanesSet_failsIfReported _ _
    · exact (Silent.fail _).failsIfReported

end View

/-! ## What is owed -/

namespace Graph

variable {g : Graph} {v : ValueId} {node : Node} {form : TypeForm}

/-- The value is there and is of another kind. -/
def Misread (g : Graph) (kind : Kind) (v : ValueId) : Prop :=
  ∃ node ∈ g.node? v, node.content.kind ≠ kind

instance (g : Graph) (kind : Kind) (v : ValueId) : Decidable (g.Misread kind v) :=
  inferInstanceAs (Decidable (∃ node ∈ g.node? v, node.content.kind ≠ kind))

/-- The value is there and is an integer literal whose low 32 bits are all set. -/
def LowBitsSet (g : Graph) (v : ValueId) : Prop :=
  ∃ node ∈ g.node? v, ∃ value ∈ node.content.intLiteral?, ∀ i < 32, value.toBitVec.getLsbD i = true

instance (g : Graph) (v : ValueId) : Decidable (g.LowBitsSet v) :=
  inferInstanceAs (Decidable (∃ node ∈ g.node? v, ∃ value ∈ node.content.intLiteral?,
    ∀ i < 32, value.toBitVec.getLsbD i = true))

/-- The question for a mask comes to a constant that is no integer literal: the value itself, or the first of its
lanes without all low bits set. -/
def MaskMisread (g : Graph) (v : ValueId) : Prop :=
  ∃ node ∈ g.node? v, ∃ form ∈ g.types.form? node.type,
    form.shape.isScalar = true ∧ node.content.kind.isConstant = true ∧ node.content.kind ≠ .constantInt ∨
    form.shape.isVector = true ∧ node.content.kind = .constantAggregate ∧
      ∃ lane ∈ node.content.operands.toList.find? fun lane => ¬ g.LowBitsSet lane, g.Misread .constantInt lane

instance (g : Graph) (v : ValueId) : Decidable (g.MaskMisread v) :=
  inferInstanceAs (Decidable (∃ node ∈ g.node? v, ∃ form ∈ g.types.form? node.type, _))

/-- The diagnostic that a turn owes to the sink, if it owes one. -/
def owed (g : Graph) : Turn ValueId TypeId → Option Diagnostic
  | .report d => some d
  | .ask (.constantInt v) => if g.Misread .constantInt v then some .nonSimpleConstant else none
  | .ask (.constantFloat v) | .ask (.constantDouble v) =>
    if g.Misread .constantFloat v then some .nonSimpleConstant else none
  | .ask (.hasAllSet v) => if g.MaskMisread v then some .nonSimpleConstant else none
  | _ => none

theorem misread_iff {kind : Kind} (hn : g.node? v = some node) :
    g.Misread kind v ↔ node.content.kind ≠ kind := by
  constructor
  · rintro ⟨m, hm, hk⟩
    cases hn.symm.trans hm
    exact hk
  · exact fun hk => ⟨node, hn, hk⟩

theorem maskMisread_iff (hn : g.node? v = some node) (hf : g.types.form? node.type = some form) :
    g.MaskMisread v ↔
      form.shape.isScalar = true ∧ node.content.kind.isConstant = true ∧ node.content.kind ≠ .constantInt ∨
      form.shape.isVector = true ∧ node.content.kind = .constantAggregate ∧
        ∃ lane ∈ node.content.operands.toList.find? fun lane => ¬ g.LowBitsSet lane,
          g.Misread .constantInt lane := by
  constructor
  · rintro ⟨m, hm, f, hf', h⟩
    cases hn.symm.trans hm
    cases hf.symm.trans hf'
    exact h
  · exact fun h => ⟨node, hn, form, hf, h⟩

theorem lowBitsSet_iff (hn : g.node? v = some node) : g.LowBitsSet v ↔ node.content.bitsSet = true := by
  have hnode : g.LowBitsSet v ↔ ∃ value ∈ node.content.intLiteral?, ∀ i < 32, value.toBitVec.getLsbD i = true := by
    constructor
    · rintro ⟨m, hm, h⟩
      cases hn.symm.trans hm
      exact h
    · exact fun h => ⟨node, hn, h⟩
  rw [hnode]
  cases node.content with
  | int value =>
    rw [Content.bitsSet, beq_iff_eq, narrow_eq_neg_one_iff]
    constructor
    · rintro ⟨_, ⟨⟩, h⟩
      exact h
    · exact fun h => ⟨value, rfl, h⟩
  | _ => exact ⟨by rintro ⟨_, ⟨⟩, -⟩, by rintro ⟨⟩⟩

/-! ## What is owed is reported -/

theorem intLiteral_eq_none_iff : g.view.intLiteral v = .ok none ↔ g.Misread .constantInt v := by
  cases hn : g.node? v with
  | none =>
    rw [show g.view.intLiteral v = .error .danglingValue from node_bind_of_none hn _]
    exact ⟨by rintro ⟨⟩, by rintro ⟨m, hm, -⟩; cases hn.symm.trans hm⟩
  | some node =>
    rw [(reads hn).intLiteral, misread_iff hn]
    cases node.content <;> simp [Content.intLiteral?, Content.kind]

theorem floatLiteral_eq_none_iff : g.view.floatLiteral v = .ok none ↔ g.Misread .constantFloat v := by
  cases hn : g.node? v with
  | none =>
    rw [show g.view.floatLiteral v = .error .danglingValue from node_bind_of_none hn _]
    exact ⟨by rintro ⟨⟩, by rintro ⟨m, hm, -⟩; cases hn.symm.trans hm⟩
  | some node =>
    rw [(reads hn).floatLiteral, misread_iff hn]
    cases node.content <;> simp [Content.floatLiteral?, Content.kind]

/-- Lanes are asked up to the first without all low bits set, and that one alone may be reported. -/
theorem allM_bitsSet_reportsIf {lanes : List ValueId} (hv : ∀ lane ∈ lanes, g.HasValue lane) :
    (lanes.allM g.view.bitsSet).ReportsIf
      (∃ lane ∈ lanes.find? fun lane => ¬ g.LowBitsSet lane, g.Misread .constantInt lane) := by
  induction lanes with
  | nil => exact .of_silent rfl (by rintro ⟨_, ⟨⟩, -⟩)
  | cons lane lanes ih =>
    rw [List.forall_mem_cons] at hv
    obtain ⟨⟨node, hn⟩, hrest⟩ := hv
    have hr : (g.view.bitsSet lane).ReportsIf (g.Misread .constantInt lane) :=
      View.bitsSet_reportsIf.congr intLiteral_eq_none_iff
    rw [List.allM, List.find?_cons]
    by_cases hb : g.LowBitsSet lane
    · have ha : (g.view.bitsSet lane).answer = .ok true := by rw [bitsSet_answer hn, (lowBitsSet_iff hn).1 hb]
      rw [decide_eq_false (not_not.2 hb)]
      refine (ih hrest).of_reports_eq ?_
      rw [Query.reports_bind_of_answer ha, View.bitsSet_failsIfReported.silent ha]
      rfl
    · have ha : (g.view.bitsSet lane).answer = .ok false := by
        rw [bitsSet_answer hn, Bool.eq_false_iff.2 fun h => hb ((lowBitsSet_iff hn).2 h)]
      rw [decide_eq_true hb]
      have hp : (∃ l ∈ some lane, g.Misread .constantInt l) ↔ g.Misread .constantInt lane :=
        ⟨by rintro ⟨_, ⟨⟩, h⟩; exact h, fun h => ⟨lane, rfl, h⟩⟩
      refine (hr.congr hp.symm).of_reports_eq ?_
      rw [Query.reports_bind_of_answer ha]
      exact List.append_nil _

theorem hasAllSet_reportsIf_of_plain (hn : g.node? v = some node) (hf : g.types.form? node.type = some form)
    (hc : node.content.kind.isConstant = true) (ha : node.content.kind ≠ .constantAggregate) :
    (g.view.hasAllSet v).ReportsIf (g.MaskMisread v) := by
  have hp : g.MaskMisread v ↔ form.shape.isScalar = true ∧ node.content.kind ≠ .constantInt := by
    rw [maskMisread_iff hn hf, hc]
    simp [ha]
  refine Query.ReportsIf.congr ?_ hp.symm
  rw [hasAllSet_of_plain hn hf hc ha, Shape.isScalar]
  cases form.shape.isAggregate with
  | true => exact .of_silent (.fail _) (by rintro ⟨⟨⟩, -⟩)
  | false =>
    refine View.bitsSet_reportsIf.congr ?_
    rw [intLiteral_eq_none_iff, misread_iff hn]
    simp

theorem WF.hasAllSet_reportsIf (hw : g.WF) : (g.view.hasAllSet v).ReportsIf (g.MaskMisread v) := by
  cases hn : g.node? v with
  | none =>
    have hs : (g.view.hasAllSet v).Silent := by
      rw [View.hasAllSet, isConstant_of_none hn]
      rfl
    exact .of_silent hs (by rintro ⟨m, hm, -⟩; cases hn.symm.trans hm)
  | some node =>
    obtain ⟨form, hf⟩ := hw.exists_form hn
    have heq := hw.hasAllSet_eq hn hf
    cases hc : node.content with
    | int _ | float _ | expr _ _ | undef =>
      exact hasAllSet_reportsIf_of_plain hn hf (by rw [hc]; rfl) (by rw [hc]; rintro ⟨⟩)
    | argument | op _ _ | call _ _ =>
      rw [hc] at heq
      rw [heq]
      refine .of_silent (.pure false) fun hm => ?_
      rw [maskMisread_iff hn hf, hc] at hm
      rcases hm with ⟨-, hk, -⟩ | ⟨-, hk, -⟩
      · cases hk
      · cases hk
    | aggregate elements =>
      rw [hc] at heq
      have hfill := hw.fills hn hc hf
      have hp : g.MaskMisread v ↔ form.shape.isVector = true ∧
          ∃ lane ∈ elements.toList.find? fun lane => ¬ g.LowBitsSet lane, g.Misread .constantInt lane := by
        rw [maskMisread_iff hn hf, Shape.isScalar, hfill.isAggregate, hc]
        simp [Content.kind, Content.operands]
      refine Query.ReportsIf.congr ?_ hp.symm
      rw [heq]
      show (if form.shape.isVector = true then _ else _ : Query Bool).ReportsIf _
      split
      · rename_i hvec
        exact (allM_bitsSet_reportsIf hfill.hasValue).congr (and_iff_right hvec).symm
      · rename_i hvec
        exact .of_silent (.fail _) fun h => hvec h.1

/-- Every inquiry reports what it owes. -/
theorem WF.reports_ask (hw : g.WF) (q : Inquiry ValueId TypeId) :
    (q.ask g.view).reports = (g.owed (.ask q)).toList := by
  have hquiet : ∀ {α : Type} {r : Query α} (f : α → Answer), r.Silent →
      (do return f (← r) : Query Answer).reports = [] := fun f h => h.bind fun _ => .pure _
  have htold : ∀ {α : Type} {r : Query α} {p : Prop} [Decidable p] (f : α → Answer), r.ReportsIf p →
      (do return f (← r) : Query Answer).reports =
        (if p then some .nonSimpleConstant else none : Option Diagnostic).toList :=
    fun f h => (h.bind_silent fun _ => .pure _).reports_eq
  cases q with
  | isUndef | isConstant | isScalar | componentCount | valueComponentCount | allDefined | allUndefined
  | allUndefinedDeep | fullyUndefined => exact hquiet _ (.read _)
  | constantInt v => exact htold _ (View.constantInt_reportsIf.congr intLiteral_eq_none_iff)
  | constantFloat v => exact htold _ (View.constantFloat_reportsIf.congr floatLiteral_eq_none_iff)
  | constantDouble v => exact htold _ (View.constantDouble_reportsIf.congr floatLiteral_eq_none_iff)
  | hasAllSet v => exact htold _ hw.hasAllSet_reportsIf
  | isPerComponentInstruction v => exact hquiet _ View.isPerComponentInstruction_silent
  | isPerComponentOperation v => exact hquiet _ View.isPerComponentOperation_silent
  | collectIndices chain => exact hquiet _ (View.collectIndices_silent chain)

end Graph

end Lanewise
