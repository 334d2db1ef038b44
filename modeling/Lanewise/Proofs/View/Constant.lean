/-
Constants and what they are made of. The elements of an aggregate are looked at when it is made, so they are
constants; of the operands of an unfolded expression it is only asked that the graph has them. So everything that
is reached from a constant along operands is a constant, as long as no unfolded expression on the way was given
anything else.
-/
import Lanewise.Proofs.View.Graph

namespace Lanewise.Graph

variable {g g' : Graph} {v w : ValueId}

def IsConstant (g : Graph) (v : ValueId) : Prop :=
  g.view.isConstant v = .ok true

theorem isConstant_iff :
    g.IsConstant v ↔ ∃ node, g.node? v = some node ∧ node.content.kind.isConstant = true := by
  constructor
  · intro h
    cases hn : g.node? v with
    | none =>
      rw [IsConstant, isConstant_of_none hn] at h
      cases h
    | some node =>
      rw [IsConstant, isConstant_eq hn] at h
      exact ⟨node, rfl, Except.ok.inj h⟩
  · rintro ⟨node, hn, hk⟩
    rw [IsConstant, isConstant_eq hn, hk]

theorem Extends.isConstant (h : g.Extends g') (hv : g.IsConstant v) : g'.IsConstant v := by
  obtain ⟨node, hn, hk⟩ := isConstant_iff.1 hv
  obtain ⟨node', hn', -, hc⟩ := h.node v node hn
  exact isConstant_iff.2 ⟨node', hn', by rw [hc.kind_eq, hk]⟩

theorem Fills.isConstant {form : TypeForm} {elements : List ValueId} (h : g.Fills form elements) :
    ∀ v ∈ elements, g.IsConstant v := by
  intro v hv
  obtain ⟨i, hi⟩ := List.mem_iff_getElem?.1 hv
  obtain ⟨node, hn, hk, -⟩ := h.2 i v hi
  exact isConstant_iff.2 ⟨node, hn, hk⟩

/-! ## Unfolded expressions -/

/-- The commands that are accepted and give an unfolded expression an operand, when they make it or afterwards. -/
inductive GivesOperand (g : Graph) : Command → ValueId → ValueId → Prop
  | made {type : TypeId} {opcode : Opcode} {operands : List ValueId} {v w : ValueId} : w ∈ operands →
      ((Command.constExpr type opcode operands).perform g).1 = .ok (.value v) →
      GivesOperand g (.constExpr type opcode operands) v w
  | given {v : ValueId} {incoming : List ValueId} {w : ValueId} : w ∈ incoming →
      ((Command.setPhiIncoming v incoming).perform g).1 = .ok .done →
      GivesOperand g (.setPhiIncoming v incoming) v w

/-- The value is an unfolded expression that has the operand, and one of the commands gave it to it. -/
def GivenToExpr (commands : List Command) (v w : ValueId) : Prop :=
  (∃ node, (commands.foldl after empty).node? v = some node ∧ node.content.kind = .constantExpr ∧
    w ∈ node.content.operands) ∧
    ∃ earlier c later, commands = earlier ++ c :: later ∧ (earlier.foldl after empty).GivesOperand c v w

/-- An operand of a constant is a constant, or was given to an unfolded expression. -/
theorem isConstant_or_givenToExpr (commands : List Command) (hv : (commands.foldl after empty).IsConstant v)
    (hu : (commands.foldl after empty).Uses v w) :
    (commands.foldl after empty).IsConstant w ∨ GivenToExpr commands v w := by
  obtain ⟨node, hn, hk⟩ := isConstant_iff.1 hv
  obtain ⟨m, hm, hw⟩ := hu
  cases hn.symm.trans hm
  obtain ⟨earlier, c, later, he, hs⟩ := exists_settles commands hn
  have hextends : (earlier.foldl after empty).Extends (commands.foldl after empty) := extends_of_eq_append he
  obtain ⟨name, type, content⟩ := node
  cases hs with
  | argument ht => cases hk
  | given hp ho hi hdone =>
    -- of constants only an unfolded expression takes incoming values
    rcases Content.kind_of_opcode?_eq_phi hp with hi' | hexpr
    · rw [hi'] at hk
      cases hk
    · rw [ho, List.mem_toArray] at hw
      exact .inr ⟨⟨_, hn, hexpr, ho ▸ List.mem_toArray.2 hw⟩, earlier, _, later, he, .given hw hdone⟩
  | made hmakes =>
    cases hmakes with
    | constAggregate hf hfill | constSplat hf hfill =>
      exact .inl (hextends.isConstant (hfill.isConstant w (List.mem_toArray.1 hw)))
    | constExpr ht ho =>
      refine .inr ⟨⟨_, hn, rfl, hw⟩, earlier, _, later, he, .made (List.mem_toArray.1 hw) ?_⟩
      rw [perform_eq_ok_iff.2 (.value (.constExpr ht ho))]
    | constInt | constFloat | undef => cases hw.val
    | instruction | callIntrinsic | phi => cases hk

/-! ## Below a constant -/

/-- What a run of commands keeps of constants: an operand of a constant is one, unless it was given to an unfolded
expression. -/
structure ConstantsClosed (commands : List Command) : Prop where
  operand : ∀ v w, (commands.foldl after empty).IsConstant v → (commands.foldl after empty).Uses v w →
    (commands.foldl after empty).IsConstant w ∨ GivenToExpr commands v w
  reached : ∀ v w, (commands.foldl after empty).IsConstant v →
    Relation.ReflTransGen (commands.foldl after empty).Uses v w →
    (∀ u x, Relation.ReflTransGen (commands.foldl after empty).Uses v u → GivenToExpr commands u x →
      (commands.foldl after empty).IsConstant x) → (commands.foldl after empty).IsConstant w

/-- Every run keeps constants closed under operands, but for what it gives to unfolded expressions. -/
theorem run_constantsClosed (commands : List Command) : ConstantsClosed commands where
  operand := fun _ _ => isConstant_or_givenToExpr commands
  reached := by
    intro v w hv hr hgiven
    induction hr with
    | refl => exact hv
    | tail hr hu ih =>
      rcases isConstant_or_givenToExpr commands ih hu with hw | hw
      · exact hw
      · exact hgiven _ _ hr hw

/-- Commands that make an unfolded expression on an argument. -/
def makeOpenExpr : List Command :=
  [.intType 32, .argument ⟨0⟩ "x", .constExpr ⟨0⟩ .add [⟨0⟩]]

/-- An unfolded expression takes any operand: it is a constant, and its operand an argument. -/
theorem expr_takes_argument :
    (makeOpenExpr.foldl after empty).view.kind ⟨0⟩ = .ok .argument ∧
    (makeOpenExpr.foldl after empty).IsConstant ⟨1⟩ ∧ (makeOpenExpr.foldl after empty).Uses ⟨1⟩ ⟨0⟩ ∧
    ¬ ∀ g : Graph, g.Reachable → ∀ v w, g.IsConstant v → g.Uses v w → g.IsConstant w := by
  have hk : (makeOpenExpr.foldl after empty).view.kind ⟨0⟩ = .ok .argument := by decide +kernel
  have hv : (makeOpenExpr.foldl after empty).view.isConstant ⟨1⟩ = .ok true := by decide +kernel
  have hn : (makeOpenExpr.foldl after empty).node? ⟨1⟩ =
      some { type := ⟨0⟩, content := .expr .add #[⟨0⟩] } := by decide +kernel
  have hu : (makeOpenExpr.foldl after empty).Uses ⟨1⟩ ⟨0⟩ :=
    ⟨_, hn, List.mem_toArray.2 (List.mem_singleton_self _)⟩
  refine ⟨hk, hv, hu, fun h => ?_⟩
  have hw := h _ (Reachable.empty.foldl_after makeOpenExpr) ⟨1⟩ ⟨0⟩ hv hu
  rw [IsConstant, View.isConstant, hk] at hw
  cases hw

end Lanewise.Graph
