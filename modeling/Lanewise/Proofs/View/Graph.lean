/-
Reading a graph through its view. Every read at a value is that of its node, and in a graph made by building an
acyclic descent comes to an end, which gives an induction on it.
-/
import Lanewise.Proofs.Analysis.Descent
import Lanewise.Proofs.Graph.Operands
import Lanewise.View.Graph

namespace Lanewise.Graph

variable {g : Graph} {v w : ValueId} {node : Node} {t : TypeId} {form : TypeForm}

/-! ## Reads of a value -/

theorem node_bind {α : Type} (hn : g.node? v = some node) (next : Node → Except Fault α) :
    g.node v >>= next = next node := by
  rw [node_eq_ok_iff.2 hn]
  rfl

theorem node_bind_of_none {α : Type} (hn : g.node? v = none) (next : Node → Except Fault α) :
    g.node v >>= next = .error .danglingValue := by
  rw [Graph.node, hn]
  rfl

theorem form_bind {α : Type} (hf : g.types.form? t = some form) (next : TypeForm → Except Fault α) :
    g.form t >>= next = next form := by
  rw [form_eq_ok_iff.2 hf]
  rfl

/-- What the view reads at a value with a node. -/
structure Reads (g : Graph) (v : ValueId) (node : Node) : Prop where
  kind : g.view.kind v = .ok node.content.kind
  type : g.view.type v = .ok node.type
  operandCount : g.view.operandCount v = .ok node.content.operands.size
  operand : ∀ i, g.view.operand v i = .ok node.content.operands[i]?
  intLiteral : g.view.intLiteral v = .ok node.content.intLiteral?
  floatLiteral : g.view.floatLiteral v = .ok node.content.floatLiteral?
  opcode : g.view.opcode v = .ok node.content.opcode?
  intrinsic : g.view.intrinsic v = .ok node.content.intrinsic?
  operands : g.view.operands v = .ok (.ofList node.content.operands.toList)
  aggregateElement : ∀ i, g.view.aggregateElement v i =
    .ok (if node.content.kind = .constantAggregate then node.content.operands[i]? else none)
  name : g.view.name v = .ok node.name

theorem reads (hn : g.node? v = some node) : g.Reads v node where
  kind := node_bind hn _
  type := node_bind hn _
  operandCount := node_bind hn _
  operand := fun _ => node_bind hn _
  intLiteral := node_bind hn _
  floatLiteral := node_bind hn _
  opcode := node_bind hn _
  intrinsic := node_bind hn _
  operands := node_bind hn _
  aggregateElement := fun i => by
    have hk : g.view.kind v = .ok node.content.kind := node_bind hn _
    have ho : g.view.operand v i = .ok node.content.operands[i]? := node_bind hn _
    show (g.view.kind v >>= fun k => if k = .constantAggregate then g.view.operand v i else pure none) = _
    rw [hk]
    show (if node.content.kind = .constantAggregate then g.view.operand v i else pure none) = _
    split
    · exact ho
    · rfl
  name := node_bind hn _

theorem shape_eq (hf : g.types.form? t = some form) : g.view.shape t = .ok form.shape :=
  form_bind hf _

theorem valueShape_eq (hn : g.node? v = some node) (hf : g.types.form? node.type = some form) :
    g.view.valueShape v = .ok form.shape := by
  rw [View.valueShape, (reads hn).type]
  exact shape_eq hf

theorem isUndef_eq (hn : g.node? v = some node) : g.view.isUndef v = .ok (node.content.kind == .undef) := by
  rw [View.isUndef, (reads hn).kind]
  rfl

theorem isConstant_eq (hn : g.node? v = some node) : g.view.isConstant v = .ok node.content.kind.isConstant := by
  rw [View.isConstant, (reads hn).kind]
  rfl

theorem isConstant_of_none (hn : g.node? v = none) : g.view.isConstant v = .error .danglingValue := by
  show g.node v >>= _ >>= _ = _
  rw [node_bind_of_none hn]
  rfl

theorem isScalar_eq (hf : g.types.form? t = some form) : g.view.isScalar t = .ok form.shape.isScalar := by
  rw [View.isScalar, shape_eq hf]
  rfl

theorem componentCount_eq (hf : g.types.form? t = some form) :
    g.view.componentCount t = .ok form.shape.componentCount := by
  rw [View.componentCount, shape_eq hf]
  rfl

theorem valueComponentCount_eq (hn : g.node? v = some node) (hf : g.types.form? node.type = some form) :
    g.view.valueComponentCount v = .ok form.shape.componentCount := by
  rw [View.valueComponentCount, (reads hn).type]
  exact componentCount_eq hf

theorem WF.exists_form (hw : g.WF) (hn : g.node? v = some node) :
    ∃ form, g.types.form? node.type = some form :=
  (hw.fits v node hn).hasType

/-! ## The descent -/

theorem descends_iff (hn : g.node? v = some node) (hf : g.types.form? node.type = some form) :
    g.view.Descends v w ↔ form.shape.isAggregate = true ∧ w ∈ node.content.operands := by
  have hs := valueShape_eq hn hf
  have ho := (reads hn).operands
  constructor
  · rintro ⟨shape, s, hs', ha, ho', hw⟩
    cases hs.symm.trans hs'
    cases ho.symm.trans ho'
    exact ⟨ha, Array.mem_toList_iff.1 (Scan.holds_ofList.1 hw)⟩
  · rintro ⟨ha, hw⟩
    exact ⟨form.shape, _, hs, ha, ho, Scan.holds_ofList.2 (Array.mem_toList_iff.2 hw)⟩

theorem WF.hasValue_of_descends (hw : g.WF) (hv : g.HasValue v) (h : g.view.Descends v w) : g.HasValue w := by
  obtain ⟨node, hn⟩ := hv
  obtain ⟨form, hf⟩ := hw.exists_form hn
  exact (hw.fits v node hn).hasValue w ((descends_iff hn hf).1 h).2

theorem WF.hasValue_of_reaches (hw : g.WF) (hv : g.HasValue v) (h : g.view.Reaches v w) : g.HasValue w := by
  induction h with
  | refl => exact hv
  | tail _ hd ih => exact hw.hasValue_of_descends ih hd

/-- The descent reaches finitely many values: it stays among those of the graph. -/
theorem WF.finite_reaches (hw : g.WF) (hv : g.HasValue v) : Finite { u : ValueId // g.view.Reaches v u } := by
  have hlt : ∀ u, g.view.Reaches v u → u.index < g.size := by
    intro u hu
    obtain ⟨node, hn⟩ := hw.hasValue_of_reaches hv hu
    exact node?_eq_some_lt hn
  have hinj : Function.Injective fun u : { u : ValueId // g.view.Reaches v u } =>
      (⟨u.1.index, hlt u.1 u.2⟩ : Fin g.size) := by
    rintro ⟨⟨i⟩, _⟩ ⟨⟨j⟩, _⟩ he
    cases Fin.mk.inj he
    rfl
  exact Finite.of_injective _ hinj

theorem WF.acc_of_acyclic (hw : g.WF) (hv : g.HasValue v) (h : g.view.Acyclic v) :
    Acc (fun a b => g.view.Descends b a) v := by
  have hwf : WellFounded fun a b : { u : ValueId // g.view.Reaches v u } =>
      Relation.TransGen g.view.Descends b.1 a.1 := by
    have := hw.finite_reaches hv
    have : IsTrans { u : ValueId // g.view.Reaches v u } fun a b =>
        Relation.TransGen g.view.Descends b.1 a.1 := ⟨fun _ _ _ hab hbc => hbc.trans hab⟩
    have : Std.Irrefl fun a b : { u : ValueId // g.view.Reaches v u } =>
        Relation.TransGen g.view.Descends b.1 a.1 := ⟨fun a => h a.1 a.2⟩
    exact Finite.wellFounded_of_trans_of_irrefl _
  have hacc : ∀ u : { u : ValueId // g.view.Reaches v u }, Acc (fun a b => g.view.Descends b a) u.1 := by
    intro u
    induction u using hwf.induction with
    | _ u ih => exact ⟨_, fun w hw => ih ⟨w, u.2.tail hw⟩ (.single hw)⟩
  exact hacc ⟨v, .refl⟩

theorem WF.descent_induction (hw : g.WF) {motive : ValueId → Prop}
    (step : ∀ v node form, g.node? v = some node → g.types.form? node.type = some form →
      (form.shape.isAggregate = true → ∀ u ∈ node.content.operands, motive u) → motive v)
    (hv : g.HasValue v) (h : g.view.Acyclic v) : motive v := by
  have hacc := hw.acc_of_acyclic hv h
  induction hacc with
  | intro v _ ih =>
    obtain ⟨node, hn⟩ := hv
    obtain ⟨form, hf⟩ := hw.exists_form hn
    refine step v node form hn hf fun ha u hu => ?_
    have hd : g.view.Descends v u := (descends_iff hn hf).2 ⟨ha, hu⟩
    exact ih u hd (hw.hasValue_of_descends ⟨node, hn⟩ hd) (h.of_reaches (.single hd))

/-- A descent that only goes to older values is acyclic. -/
theorem acyclic_of_older (h : ∀ u, g.view.Reaches v u → ∀ w, g.view.Descends u w → w.index < u.index) :
    g.view.Acyclic v := by
  have hlt : ∀ u w, g.view.Reaches v u → Relation.TransGen g.view.Descends u w → w.index < u.index := by
    intro u w hu hw
    induction hw with
    | single hd => exact h u hu _ hd
    | tail hw hd ih => exact Nat.lt_trans (h _ (hu.trans hw.to_reflTransGen) _ hd) ih
  exact fun u hu hc => Nat.lt_irrefl _ (hlt u u hu hc)

theorem WF.uses_of_descends (hw : g.WF) (hv : g.HasValue v) (h : g.view.Descends v w) : g.Uses v w := by
  obtain ⟨node, hn⟩ := hv
  obtain ⟨form, hf⟩ := hw.exists_form hn
  exact ⟨node, hn, ((descends_iff hn hf).1 h).2⟩

theorem WF.acyclic_of_no_phi (hw : g.WF) (ho : g.OperandsOlder) (hv : g.HasValue v)
    (h : ∀ u w, g.view.Reaches v u → g.view.Descends u w → ¬ g.IsPhi u) : g.view.Acyclic v := by
  refine acyclic_of_older fun u hu w hd => ?_
  have huse : g.Uses u w := hw.uses_of_descends (hw.hasValue_of_reaches hv hu) hd
  exact ho.lt_of_uses huse (h u w hu hd)

end Lanewise.Graph
