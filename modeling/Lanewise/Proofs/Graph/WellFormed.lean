/-
Graphs made by building are well formed: every reference of a node is to a type or a value of the graph, and
the type of a node fits its content.
-/
import Lanewise.Proofs.Graph.Extension
import Lanewise.Proofs.Number.Word

namespace Lanewise

namespace Graph

variable {g g' : Graph} {c : Command} {r : Reply} {type : TypeId} {content : Content}

/-! ## Contents that fit their type -/

theorem Fills.isAggregate {form : TypeForm} {elements : List ValueId} (h : g.Fills form elements) :
    form.shape.isAggregate = true := by
  have hc := h.1
  cases form with
  | vector | array | struct => rfl
  | _ => cases hc

theorem Fills.hasValue {form : TypeForm} {elements : List ValueId} (h : g.Fills form elements) :
    ∀ v ∈ elements, g.HasValue v := by
  intro v hv
  obtain ⟨i, hi⟩ := List.mem_iff_getElem?.1 hv
  obtain ⟨node, hn, -⟩ := h.2 i v hi
  exact ⟨node, hn⟩

/-- The content of a node fits its type: a literal is one of the type, the elements of an aggregate are those
that the type asks for, and anything else may have any type and any operands of the graph. -/
def Fits (g : Graph) (type : TypeId) : Content → Prop
  | .int value => ∃ bits, g.types.form? type = some (.int bits) ∧
    -(2 : Int) ^ (bits - 1) ≤ value.toInt ∧ value.toInt < (2 : Int) ^ (bits - 1)
  | .float literal => g.types.form? type = some (.float literal.precision)
  | .aggregate elements => ∃ form, g.types.form? type = some form ∧ g.Fills form elements.toList
  | .undef | .argument => g.HasType type
  | .expr _ operands | .op _ operands | .call _ operands => g.HasType type ∧ ∀ v ∈ operands, g.HasValue v

namespace Fits

theorem hasType (h : g.Fits type content) : g.HasType type := by
  cases content with
  | int value => obtain ⟨bits, hf, -⟩ := h; exact ⟨_, hf⟩
  | float literal => exact ⟨_, h⟩
  | aggregate elements => obtain ⟨form, hf, -⟩ := h; exact ⟨form, hf⟩
  | undef | argument => exact h
  | expr | op | call => exact h.1

theorem hasValue (h : g.Fits type content) : ∀ v ∈ content.operands, g.HasValue v := by
  cases content with
  | aggregate elements => obtain ⟨form, -, hf⟩ := h; exact fun v hv => hf.hasValue v hv.val
  | expr | op | call => exact h.2
  | _ => exact fun v hv => by cases hv.val

theorem mono (h : g.Fits type content) (he : g.Extends g') : g'.Fits type content := by
  cases content with
  | int value => obtain ⟨bits, hf, hb⟩ := h; exact ⟨bits, he.form _ _ hf, hb⟩
  | float literal => exact he.form _ _ h
  | aggregate elements => obtain ⟨form, hf, hv⟩ := h; exact ⟨form, he.form _ _ hf, he.fills hv⟩
  | undef | argument => exact he.hasType h
  | expr | op | call => exact ⟨he.hasType h.1, fun v hv => he.hasValue (h.2 v hv)⟩

theorem withOperands (h : g.Fits type content) (hp : content.opcode? = some .phi) {vs : Array ValueId}
    (hv : ∀ v ∈ vs, g.HasValue v) : g.Fits type (content.withOperands vs) := by
  cases content with
  | expr | op | call => exact ⟨h.1, hv⟩
  | _ => cases hp

end Fits

theorem Makes.fits (hw : g.types.WF) (h : g.Makes c type content) : g.Fits type content := by
  cases h with
  | constInt hf =>
    obtain ⟨h1, h64⟩ := hw.admissible _ _ hf
    exact ⟨_, hf, signExtend_bounds h1 h64 _⟩
  | constFloat hf => exact hf
  | constAggregate hf he => exact ⟨_, hf, he⟩
  | constSplat hf he => exact ⟨_, hf, he⟩
  | constExpr ht ho | instruction ht ho | callIntrinsic ht ho => exact ⟨ht, by simpa using ho⟩
  | undef ht => exact ht
  | phi ht => exact ⟨ht, by simp⟩

/-! ## The invariant -/

/-- The invariant of graphs made by building. -/
structure WF (g : Graph) : Prop where
  types : g.types.WF
  fits : ∀ v node, g.node? v = some node → g.Fits node.type node.content

theorem empty_wf : empty.WF :=
  ⟨TypeTable.empty_wf, fun v node h => by simp [empty, node?] at h⟩

theorem WF.withForm (h : g.WF) {form : TypeForm} (ha : form.Admissible g.types) : (g.withForm form).WF :=
  ⟨TypeTable.intern_wf h.types ha, fun v node hn => (h.fits v node hn).mono (withForm_extends g form)⟩

theorem WF.withNode (h : g.WF) {node : Node} (hf : g.Fits node.type node.content) : (g.withNode node).WF := by
  refine ⟨h.types, fun v n hn => ?_⟩
  rw [node?_withNode] at hn
  split at hn
  · cases hn; exact hf.mono (withNode_extends g node)
  · exact (h.fits v n hn).mono (withNode_extends g node)

theorem WF.withName (h : g.WF) (v : ValueId) (name : String) : (g.withName v name).WF := by
  refine ⟨h.types, fun w n hn => ?_⟩
  rw [node?_withName] at hn
  split at hn
  · obtain ⟨m, hm, rfl⟩ := Option.map_eq_some_iff.1 hn
    exact (h.fits w m hm).mono (withName_extends g v name)
  · exact (h.fits w n hn).mono (withName_extends g v name)

theorem WF.withIncoming (h : g.WF) {v : ValueId} {node : Node} (hn : g.node? v = some node)
    (hp : node.content.opcode? = some .phi) {incoming : List ValueId} (hi : ∀ w ∈ incoming, g.HasValue w) :
    (g.withIncoming v incoming).WF := by
  -- a phi may be an incoming value of its own, so its operands are looked for in the extended graph
  have he := withIncoming_extends hn hp incoming
  refine ⟨h.types, fun w n hw => ?_⟩
  rw [node?_withIncoming] at hw
  split at hw
  · rename_i hvw
    subst hvw
    rw [hn] at hw
    cases hw
    exact ((h.fits v node hn).withOperands hp (by simpa using hi)).mono he
  · exact (h.fits w n hw).mono he

theorem Accepts.wf (h : g.Accepts c r g') (hw : g.WF) : g'.WF := by
  cases h with
  | type hc ha => exact hw.withForm ha
  | value hm => exact hw.withNode (hm.fits hw.types)
  | @argument type name ht =>
    have hn : (g.withNode { type, content := .argument }).WF := hw.withNode ht
    exact hn.withName _ _
  | setPhiIncoming hn hp hi =>
    -- that an incoming value has the type of the phi is not needed here
    refine hw.withIncoming hn hp fun w hm => ?_
    obtain ⟨m, hm, -⟩ := hi w hm
    exact ⟨m, hm⟩
  | setName hv => exact hw.withName _ _

theorem Reachable.wf (h : g.Reachable) : g.WF := by
  induction h with
  | empty => exact empty_wf
  | @after g c hg ih =>
    rcases after_cases g c with he | ⟨r, ha⟩
    · rw [he]; exact ih
    · exact ha.wf ih

theorem foldl_after_wf (commands : List Command) : (commands.foldl Graph.after empty).WF :=
  (Reachable.empty.foldl_after commands).wf

section
variable {v : ValueId} {node : Node}

theorem WF.exists_int (hw : g.WF) {value : Int64} (hn : g.node? v = some node) (hc : node.content = .int value) :
    ∃ bits, g.types.form? node.type = some (.int bits) := by
  have hfit := hw.fits v node hn
  rw [hc] at hfit
  obtain ⟨bits, hf, -⟩ := hfit
  exact ⟨bits, hf⟩

theorem WF.fills (hw : g.WF) {form : TypeForm} {elements : Array ValueId} (hn : g.node? v = some node)
    (hc : node.content = .aggregate elements) (hf : g.types.form? node.type = some form) :
    g.Fills form elements.toList := by
  have hfit := hw.fits v node hn
  rw [hc] at hfit
  obtain ⟨form', hf', hfill⟩ := hfit
  cases hf.symm.trans hf'
  exact hfill

end

end Graph

end Lanewise
