/-
Which instructions are classified as done lane by lane. The call of an intrinsic goes by its category, any other
instruction by its opcode, and a cast must keep the number of components of its operand. The classification
follows this rule with one exception: a fence works on memory and is split all the same.
-/
import Lanewise.Proofs.Analysis.Answers

namespace Lanewise

/-! ## Categories and opcodes -/

/-- The categories whose intrinsics are done lane by lane. -/
def IntrinsicCategory.LaneLocal (category : IntrinsicCategory) : Prop :=
  category ∈ [.floatMath, .integerMath, .bitManipulation, .vectorAssembly, .control]

theorem Intrinsic.isPerComponent_iff (i : Intrinsic) : i.isPerComponent = true ↔ i.category.LaneLocal := by
  rw [isPerComponent, IntrinsicCategory.LaneLocal]
  cases i.category <;> decide

namespace Opcode

def terminators : List Opcode :=
  [.ret, .br, .switch, .indirectBr, .unreachable]

def memoryOperations : List Opcode :=
  [.alloca, .load, .store, .getElementPtr, .fence]

def casts : List Opcode :=
  [.trunc, .zext, .sext, .fpToUI, .fpToSI, .uiToFP, .siToFP, .fpTrunc, .fpExt, .ptrToInt, .intToPtr, .bitCast]

theorem isTerminator_iff (op : Opcode) : op.isTerminator = true ↔ op ∈ terminators := by
  cases op <;> decide

theorem isCast_iff (op : Opcode) : op.isCast = true ↔ op ∈ casts := by
  cases op <;> decide

/-- The opcodes that are done lane by lane, casts among them: they neither end a block nor work on memory, do not
move lanes or reach into aggregates, and are no phi, no call and no access to a variable argument list. -/
def LaneLocal (op : Opcode) : Prop :=
  op ∉ terminators ∧ op ∉ memoryOperations ∧ op ∉ [.insertElement, .extractElement, .shuffleVector] ∧
    op ∉ [.extractValue, .insertValue] ∧ op ∉ [.phi, .call, .vaArg]

instance (op : Opcode) : Decidable op.LaneLocal :=
  inferInstanceAs (Decidable (_ ∧ _))

/-- The exclusions name every opcode that is not done lane by lane but one. -/
theorem isPerComponent_iff (op : Opcode) :
    op.isTerminator = false ∧ op.isPerComponent = true ↔ op.LaneLocal ∨ op = .fence := by
  cases op <;> decide

theorem laneLocal_of_mem_casts {op : Opcode} (h : op ∈ casts) : op.LaneLocal := by
  revert h
  cases op <;> decide

end Opcode

/-! ## The classification of an IR that is read -/

namespace View

variable {V T : Type} {view : View V T} {v : V}

theorem isPerComponentInstruction_of_intrinsic {intrinsic : Intrinsic} (hi : view.intrinsic v = .ok (some intrinsic)) :
    (view.isPerComponentInstruction v).answer = .ok intrinsic.isPerComponent := by
  rw [isPerComponentInstruction, Query.read_bind hi]
  rfl

theorem isPerComponentInstruction_of_opcode {opcode : Opcode} (hi : view.intrinsic v = .ok none)
    (ho : view.opcode v = .ok (some opcode)) : view.isPerComponentInstruction v =
      if opcode.isTerminator then return false
      else if opcode.isCast then view.castKeepsLanes v opcode
      else return opcode.isPerComponent := by
  rw [isPerComponentInstruction, Query.read_bind hi]
  exact Query.read_bind ho _

theorem castKeepsLanes_of_source {source : V} {before after : UInt32} (opcode : Opcode)
    (ho : view.operand v 0 = .ok (some source)) (hb : view.valueComponentCount source = .ok before)
    (ha : view.valueComponentCount v = .ok after) :
    (view.castKeepsLanes v opcode).answer = .ok (decide (before = after)) := by
  rw [castKeepsLanes, Query.read_bind ho]
  show (liftM (view.valueComponentCount source) >>= _ : Query Bool).answer = _
  rw [Query.read_bind hb, Query.read_bind ha]
  by_cases he : before = after
  · rw [if_pos he, decide_eq_true he]
    rfl
  · rw [if_neg he, decide_eq_false he]
    rfl

theorem castKeepsLanes_of_none (opcode : Opcode) (ho : view.operand v 0 = .ok none) :
    (view.castKeepsLanes v opcode).answer = .ok false := by
  rw [castKeepsLanes, Query.read_bind ho]
  rfl

end View

/-! ## Graphs -/

namespace Graph

variable {g : Graph} {v : ValueId} {node : Node}

/-- The value has a first operand, and as many components as that has. -/
def KeepsComponents (g : Graph) (v : ValueId) : Prop :=
  ∃ source n, g.view.operand v 0 = .ok (some source) ∧ g.view.valueComponentCount source = .ok n ∧
    g.view.valueComponentCount v = .ok n

/-- The rule for an instruction that can be split by lane, by its content. -/
def SplitsByLane (g : Graph) (v : ValueId) : Content → Prop
  | .call intrinsic _ => intrinsic.category.LaneLocal
  | .op opcode _ => opcode.LaneLocal ∧ (opcode ∈ Opcode.casts → g.KeepsComponents v)
  | _ => False

theorem WF.castKeepsLanes_iff (hw : g.WF) (hn : g.node? v = some node) (opcode : Opcode) :
    ∃ b, (g.view.castKeepsLanes v opcode).answer = .ok b ∧ (b = true ↔ g.KeepsComponents v) := by
  have hop := (reads hn).operand 0
  cases hs : node.content.operands[0]? with
  | none =>
    rw [hs] at hop
    refine ⟨false, View.castKeepsLanes_of_none opcode hop, by rintro ⟨⟩, ?_⟩
    rintro ⟨source, n, ho, -⟩
    cases hop.symm.trans ho
  | some source =>
    rw [hs] at hop
    have hsource : g.HasValue source := (hw.fits v node hn).hasValue source (Array.mem_of_getElem? hs)
    obtain ⟨before, hb⟩ := hw.exists_valueComponentCount hsource
    obtain ⟨after, ha⟩ := hw.exists_valueComponentCount ⟨node, hn⟩
    refine ⟨_, View.castKeepsLanes_of_source opcode hop hb ha, ?_⟩
    rw [decide_eq_true_eq]
    constructor
    · rintro rfl
      exact ⟨source, before, hop, hb, ha⟩
    · rintro ⟨source', n, ho, hb', ha'⟩
      cases hop.symm.trans ho
      exact Except.ok.inj ((hb.symm.trans hb').trans (ha'.symm.trans ha))

theorem WF.isPerComponentInstruction_of_op (hw : g.WF) (hn : g.node? v = some node) {opcode : Opcode}
    {operands : Array ValueId} (hc : node.content = .op opcode operands) :
    ∃ b, (g.view.isPerComponentInstruction v).answer = .ok b ∧
      (b = true ↔ g.SplitsByLane v node.content ∨ opcode = .fence) := by
  have hi : g.view.intrinsic v = .ok none := by rw [(reads hn).intrinsic, hc]; rfl
  have ho : g.view.opcode v = .ok (some opcode) := by rw [(reads hn).opcode, hc]; rfl
  rw [View.isPerComponentInstruction_of_opcode hi ho, hc, SplitsByLane]
  have hiff := opcode.isPerComponent_iff
  by_cases ht : opcode.isTerminator = true
  · rw [if_pos ht]
    refine ⟨false, rfl, by rintro ⟨⟩, ?_⟩
    rintro (h | rfl)
    · exact absurd (opcode.isTerminator_iff.1 ht) h.1.1
    · exact absurd ht (by decide)
  by_cases hcast : opcode.isCast = true
  · rw [if_neg ht, if_pos hcast]
    have hmem : opcode ∈ Opcode.casts := opcode.isCast_iff.1 hcast
    obtain ⟨b, hb, hkeeps⟩ := hw.castKeepsLanes_iff hn opcode
    refine ⟨b, hb, hkeeps.trans ⟨fun h => .inl ⟨Opcode.laneLocal_of_mem_casts hmem, fun _ => h⟩, ?_⟩⟩
    rintro (h | rfl)
    · exact h.2 hmem
    · exact absurd hcast (by decide)
  · rw [if_neg ht, if_neg hcast]
    have hmem : opcode ∉ Opcode.casts := fun hm => hcast (opcode.isCast_iff.2 hm)
    refine ⟨opcode.isPerComponent, rfl, fun h => ?_, fun h => ?_⟩
    · exact (hiff.1 ⟨Bool.eq_false_iff.2 ht, h⟩).imp_left fun hl => ⟨hl, fun hc => absurd hc hmem⟩
    · exact (hiff.2 (h.imp_left And.left)).2

/-- How a value is classified: an instruction by the rule, but a fence as split. -/
structure Classified (g : Graph) (v : ValueId) (node : Node) : Prop where
  instruction : node.content.kind = .instruction → ∃ b, (g.view.isPerComponentInstruction v).answer = .ok b ∧
    (b = true ↔ g.SplitsByLane v node.content ∨ node.content.opcode? = some .fence)
  operation : node.content.kind = .instruction →
    g.view.isPerComponentOperation v = g.view.isPerComponentInstruction v
  other : node.content.kind ≠ .instruction → g.view.isPerComponentOperation v = pure false

/-- Every value of a graph made by building is classified by the rule, but for fences. -/
theorem classified_by_rule (h : g.Reachable) (hn : g.node? v = some node) : g.Classified v node where
  instruction := by
    intro hk
    cases hc : node.content with
    | op opcode operands =>
      obtain ⟨b, hb, hiff⟩ := h.wf.isPerComponentInstruction_of_op hn hc
      refine ⟨b, hb, ?_⟩
      rw [hc] at hiff
      rw [hiff, Content.opcode?, Option.some.injEq]
    | call intrinsic arguments =>
      have hi : g.view.intrinsic v = .ok (some intrinsic) := by rw [(reads hn).intrinsic, hc]; rfl
      refine ⟨_, View.isPerComponentInstruction_of_intrinsic hi, ?_⟩
      rw [intrinsic.isPerComponent_iff, SplitsByLane, Content.opcode?]
      simp
    | _ => rw [hc] at hk; cases hk
  operation := by
    intro hk
    rw [View.isPerComponentOperation, Query.read_bind (reads hn).kind, if_pos hk]
  other := by
    intro hk
    rw [View.isPerComponentOperation, Query.read_bind (reads hn).kind, if_neg hk]

/-- A vector cast to fewer lanes and to as many, and a fence. -/
def castings : Graph :=
  [.intType 32, .vectorType ⟨0⟩ 4, .vectorType ⟨0⟩ 2, .argument ⟨1⟩ "x", .instruction ⟨2⟩ .bitCast [⟨0⟩],
    .instruction ⟨1⟩ .bitCast [⟨0⟩], .voidType, .instruction ⟨3⟩ .fence []].foldl after empty

/-- The cast to fewer lanes cannot be split. -/
theorem classified_by_rule_castings : castings.Reachable ∧
    castings.node? ⟨1⟩ = some { type := ⟨2⟩, content := .op .bitCast #[⟨0⟩] } ∧
    castings.Classified ⟨1⟩ { type := ⟨2⟩, content := .op .bitCast #[⟨0⟩] } ∧
    (castings.view.isPerComponentInstruction ⟨1⟩).answer = .ok false ∧
    (castings.view.isPerComponentInstruction ⟨2⟩).answer = .ok true := by
  have hr : castings.Reachable := Reachable.empty.foldl_after _
  have hn : castings.node? ⟨1⟩ = some { type := ⟨2⟩, content := .op .bitCast #[⟨0⟩] } := by decide +kernel
  exact ⟨hr, hn, classified_by_rule hr hn, by decide +kernel, by decide +kernel⟩

/-- A fence works on memory, and it is split. -/
theorem fence_splits : castings.node? ⟨3⟩ = some { type := ⟨3⟩, content := .op .fence #[] } ∧
    Opcode.fence.group = .memory ∧ (castings.view.isPerComponentInstruction ⟨3⟩).answer = .ok true ∧
    ¬ ∀ g : Graph, g.Reachable → ∀ v node, g.node? v = some node → node.content.kind = .instruction →
      ((g.view.isPerComponentInstruction v).answer = .ok true ↔ g.SplitsByLane v node.content) := by
  have hr : castings.Reachable := Reachable.empty.foldl_after _
  have hn : castings.node? ⟨3⟩ = some { type := ⟨3⟩, content := .op .fence #[] } := by decide +kernel
  have ha : (castings.view.isPerComponentInstruction ⟨3⟩).answer = .ok true := by decide +kernel
  refine ⟨hn, rfl, ha, fun h => ?_⟩
  have hl : Opcode.fence.LaneLocal := ((h castings hr ⟨3⟩ _ hn rfl).1 ha).1
  exact absurd hl (by decide)

end Graph

end Lanewise
