/-
Masks, told by the numbers they were built from. A literal keeps the low bits of its number and a mask is asked
for its low 32 bits, so the number must have ones in as many of its lowest bits as the width has, and no more than
32 (`run_decidesMasks`).
-/
import Lanewise.Proofs.Analysis.Definedness

namespace Lanewise.Graph

variable {commands : List Command} {v : ValueId} {bits : Nat} {x : Int64}

/-! ## Where literals come from -/

/-- One of the commands made the value, on the graph that those before it lead to, as an integer literal of the
width from the number. -/
def LiteralFrom (commands : List Command) (v : ValueId) (bits : Nat) (x : Int64) : Prop :=
  ∃ earlier type later, commands = earlier ++ .constInt type x :: later ∧
    (earlier.foldl after empty).types.form? type = some (.int bits) ∧
    ((Command.constInt type x).perform (earlier.foldl after empty)).1 = .ok (.value v)

theorem LiteralFrom.exists_node (h : LiteralFrom commands v bits x) :
    ∃ node, (commands.foldl after empty).node? v = some node ∧ node.content = .int (signExtend bits x) ∧
      (commands.foldl after empty).types.form? node.type = some (.int bits) := by
  obtain ⟨earlier, type, later, rfl, hf, hr⟩ := h
  have hmakes : (earlier.foldl after empty).Makes (.constInt type x) type (.int (signExtend bits x)) := .constInt hf
  have hperform := perform_eq_ok_iff.2 (.value hmakes)
  rw [hperform] at hr
  cases hr
  -- the literal is there after the command, and what comes later leaves it as it is
  have he : ((earlier.foldl after empty).after (.constInt type x)).Extends
      ((earlier ++ .constInt type x :: later).foldl after empty) := by
    rw [List.foldl_append, List.foldl_cons]
    exact foldl_after_extends _ _
  rw [after, hperform] at he
  obtain ⟨node, hn, ht, hc⟩ := he.node _ _ (node?_withNode_self _)
  refine ⟨node, hn, ?_, ht ▸ he.form _ _ hf⟩
  rcases hc with hc | ⟨⟨⟩, -⟩
  exact hc

theorem exists_literalFrom {node : Node} {value : Int64} (hn : (commands.foldl after empty).node? v = some node)
    (hc : node.content = .int value) : ∃ bits x, LiteralFrom commands v bits x := by
  obtain ⟨earlier, c, later, he, hs⟩ := exists_settles commands hn
  rw [hc] at hs
  cases hs with
  | made hm =>
    cases hm with
    | @constInt type bits x hf =>
      exact ⟨bits, x, earlier, _, later, he, hf, by rw [perform_eq_ok_iff.2 (.value (.constInt hf))]⟩
  | given hp ho hi => cases hp

/-! ## Literals of ones -/

/-- The value was made as an integer literal of the width from a number whose lowest bits are ones, as many as the
width has and no more than 32. -/
def MadeOfOnes (commands : List Command) (bits : Nat) (v : ValueId) : Prop :=
  ∃ x, LiteralFrom commands v bits x ∧ ∀ i < min bits 32, x.toBitVec.getLsbD i = true

theorem WF.bitsSet_signExtend_iff {g : Graph} (hw : g.WF) {t : TypeId} (hf : g.types.form? t = some (.int bits)) :
    (Content.int (signExtend bits x)).bitsSet = true ↔ ∀ i < min bits 32, x.toBitVec.getLsbD i = true := by
  obtain ⟨h1, h64⟩ := hw.types.admissible _ _ hf
  rw [Content.bitsSet, beq_iff_eq]
  exact narrow_signExtend_eq_neg_one_iff h1 h64 x

theorem madeOfOnes_iff : MadeOfOnes commands bits v ↔
    ∃ node, (commands.foldl after empty).node? v = some node ∧ node.content.bitsSet = true ∧
      (commands.foldl after empty).types.form? node.type = some (.int bits) := by
  have hw : (commands.foldl after empty).WF := foldl_after_wf commands
  constructor
  · rintro ⟨x, hx, hbits⟩
    obtain ⟨node, hn, hc, hf⟩ := hx.exists_node
    exact ⟨node, hn, hc ▸ (hw.bitsSet_signExtend_iff hf).2 hbits, hf⟩
  · rintro ⟨node, hn, hb, hf⟩
    cases hc : node.content with
    | int value =>
      obtain ⟨bits', x, hx⟩ := exists_literalFrom hn hc
      obtain ⟨m, hm, hc', hf'⟩ := hx.exists_node
      cases hn.symm.trans hm
      cases hf.symm.trans hf'
      rw [hc'] at hb
      exact ⟨x, hx, (hw.bitsSet_signExtend_iff hf).1 hb⟩
    | _ => rw [hc] at hb; cases hb

/-! ## Masks -/

/-- The value was made as a mask: it is a literal made of ones, or a vector of integers each of whose lanes is. -/
inductive IsMask (commands : List Command) (v : ValueId) : Prop
  | literal {bits : Nat} : MadeOfOnes commands bits v → IsMask commands v
  | vector {node : Node} {element : TypeId} {lanes : UInt32} {bits : Nat} :
      (commands.foldl after empty).node? v = some node → node.content.kind = .constantAggregate →
      (commands.foldl after empty).types.form? node.type = some (.vector element lanes) →
      (commands.foldl after empty).types.form? element = some (.int bits) →
      (∀ i < lanes.toNat, ∃ e, node.content.operands[i]? = some e ∧ MadeOfOnes commands bits e) →
      IsMask commands v

/-- The value has no lane: its type has no component, or it is made of no element. -/
def Laneless (g : Graph) (v : ValueId) : Prop :=
  g.view.valueComponentCount v = .ok 0 ∨
    ∃ node ∈ g.node? v, node.content.kind = .constantAggregate ∧ node.content.operands = #[]

/-- The value is a float or a pointer, or it is undefined or an unfolded expression. -/
def NonInteger (g : Graph) (v : ValueId) : Prop :=
  ∃ node ∈ g.node? v, node.content.kind = .undef ∨ node.content.kind = .constantExpr ∨
    ∃ form ∈ g.types.form? node.type, form = .pointer ∨ ∃ precision, form = .float precision

section
variable {g : Graph} {node : Node} {form : TypeForm}

theorem hasValue_of_hasAllSet {b : Bool} (h : (g.view.hasAllSet v).answer = .ok b) : g.HasValue v := by
  cases hn : g.node? v with
  | none =>
    rw [View.hasAllSet, isConstant_of_none hn] at h
    cases h
  | some node => exact ⟨node, hn⟩

theorem WF.exists_int_of_bitsSet (hw : g.WF) (hn : g.node? v = some node) (hb : node.content.bitsSet = true) :
    ∃ bits, g.types.form? node.type = some (.int bits) := by
  cases hc : node.content with
  | int value => exact hw.exists_int hn hc
  | _ => rw [hc] at hb; cases hb

theorem WF.exists_lane (hw : g.WF) {elements : Array ValueId} {element : TypeId} {lanes : UInt32}
    (hn : g.node? v = some node) (hc : node.content = .aggregate elements)
    (hf : g.types.form? node.type = some (.vector element lanes)) (hones : ∀ e ∈ elements, g.AllOnes e) {i : Nat}
    (hi : i < lanes.toNat) : ∃ e m, elements[i]? = some e ∧ g.node? e = some m ∧ m.content.bitsSet = true ∧
      m.type = element := by
  have hfill := hw.fills hn hc hf
  have hsize : lanes.toNat = elements.toList.length := Option.some.inj hfill.1
  have hlt : i < elements.size := by rwa [hsize, Array.length_toList] at hi
  have he : elements[i]? = some elements[i] := Array.getElem?_eq_getElem hlt
  obtain ⟨m, hm, hb⟩ := hones elements[i] (Array.getElem_mem hlt)
  obtain ⟨m', hm', -, ht⟩ := hfill.2 i elements[i] ((Array.getElem?_toList ..).trans he)
  cases hm.symm.trans hm'
  have ht : (if i < lanes.toNat then some element else none) = some m.type := ht
  rw [if_pos hi, Option.some.injEq] at ht
  exact ⟨elements[i], m, he, hm, hb, ht.symm⟩

theorem WF.not_nonInteger (hw : g.WF) (h : g.AllOnes v) : ¬ g.NonInteger v := by
  obtain ⟨node, hn, hb⟩ := h
  obtain ⟨bits, hf⟩ := hw.exists_int_of_bitsSet hn hb
  have hk : node.content.kind = .constantInt := by
    cases hc : node.content with
    | int value => rfl
    | _ => rw [hc] at hb; cases hb
  rintro ⟨m, hm, hother⟩
  cases hn.symm.trans hm
  rcases hother with hu | he | ⟨form, hf', hform⟩
  · cases hk.symm.trans hu
  · cases hk.symm.trans he
  · cases hf.symm.trans hf'
    rcases hform with hform | ⟨precision, hform⟩
    · cases hform
    · cases hform

theorem WF.not_laneless (hw : g.WF) (h : (g.view.hasAllSet v).answer = .ok true) : ¬ g.Laneless v := by
  obtain ⟨node, hn⟩ := hasValue_of_hasAllSet h
  obtain ⟨form, hf⟩ := hw.exists_form hn
  rcases (hw.hasAllSet_eq_true_iff hn hf).1 h with hb | ⟨elements, hc, hvec, -⟩
  · obtain ⟨bits, hf'⟩ := hw.exists_int_of_bitsSet hn hb
    cases hf.symm.trans hf'
    rintro (hcount | ⟨m, hm, hk, -⟩)
    · rw [valueComponentCount_eq hn hf] at hcount
      cases hcount
    · cases hn.symm.trans hm
      cases hc : node.content with
      | aggregate elements => rw [hc] at hb; cases hb
      | _ => rw [hc] at hk; cases hk
  · have hne : elements.toList ≠ [] := hw.lanes_ne_nil hn hf hc hvec
    have hfill := hw.fills hn hc hf
    rintro (hcount | ⟨m, hm, -, hempty⟩)
    · cases form with
      | vector element lanes =>
        rw [valueComponentCount_eq hn hf, Except.ok.injEq] at hcount
        have hlanes : lanes = 0 := hcount
        have hsize : lanes.toNat = elements.toList.length := Option.some.inj hfill.1
        rw [hlanes] at hsize
        exact hne (List.length_eq_zero_iff.1 hsize.symm)
      | _ => cases hvec
    · cases hn.symm.trans hm
      rw [hc] at hempty
      exact hne (Array.toList_eq_nil_iff.2 hempty)

theorem WF.not_nonInteger_of_mask (hw : g.WF) (h : (g.view.hasAllSet v).answer = .ok true) :
    ¬ g.NonInteger v ∧ ∀ lane, g.Uses v lane → ¬ g.NonInteger lane := by
  obtain ⟨node, hn⟩ := hasValue_of_hasAllSet h
  obtain ⟨form, hf⟩ := hw.exists_form hn
  rcases (hw.hasAllSet_eq_true_iff hn hf).1 h with hb | ⟨elements, hc, hvec, hones⟩
  · refine ⟨hw.not_nonInteger ⟨node, hn, hb⟩, ?_⟩
    rintro lane ⟨m, hm, hl⟩
    cases hn.symm.trans hm
    cases hc : node.content with
    | int value => rw [hc] at hl; cases hl.val
    | _ => rw [hc] at hb; cases hb
  · constructor
    · rintro ⟨m, hm, hother⟩
      cases hn.symm.trans hm
      rw [hc] at hother
      rcases hother with hu | he | ⟨form', hf', hform⟩
      · cases hu
      · cases he
      · cases hf.symm.trans hf'
        rcases hform with rfl | ⟨precision, rfl⟩
        · cases hvec
        · cases hvec
    · rintro lane ⟨m, hm, hl⟩
      cases hn.symm.trans hm
      rw [hc] at hl
      exact hw.not_nonInteger (hones lane hl)

end

theorem isMask_of_hasAllSet (h : ((commands.foldl after empty).view.hasAllSet v).answer = .ok true) :
    IsMask commands v := by
  have hw : (commands.foldl after empty).WF := foldl_after_wf commands
  obtain ⟨node, hn⟩ := hasValue_of_hasAllSet h
  obtain ⟨form, hf⟩ := hw.exists_form hn
  rcases (hw.hasAllSet_eq_true_iff hn hf).1 h with hb | ⟨elements, hc, hvec, hones⟩
  · obtain ⟨bits, hint⟩ := hw.exists_int_of_bitsSet hn hb
    exact .literal (madeOfOnes_iff.2 ⟨node, hn, hb, hint⟩)
  cases form with
  | vector element lanes =>
    have hpos : 0 < lanes.toNat := by
      rw [show lanes.toNat = _ from Option.some.inj (hw.fills hn hc hf).1]
      exact List.length_pos_of_ne_nil (hw.lanes_ne_nil hn hf hc hvec)
    -- the first lane tells that the element type is an integer type
    obtain ⟨_, m, _, hm, hb, rfl⟩ := hw.exists_lane hn hc hf hones hpos
    obtain ⟨bits, hint⟩ := hw.exists_int_of_bitsSet hm hb
    refine .vector hn (by rw [hc]; rfl) hf hint fun i hi => ?_
    obtain ⟨e, m', he, hm', hb', ht⟩ := hw.exists_lane hn hc hf hones hi
    rw [hc]
    exact ⟨e, he, madeOfOnes_iff.2 ⟨m', hm', hb', ht ▸ hint⟩⟩
  | _ => cases hvec

theorem IsMask.hasAllSet (h : IsMask commands v) :
    ((commands.foldl after empty).view.hasAllSet v).answer = .ok true := by
  have hw : (commands.foldl after empty).WF := foldl_after_wf commands
  cases h with
  | literal h =>
    obtain ⟨node, hn, hb, hf⟩ := madeOfOnes_iff.1 h
    exact (hw.hasAllSet_eq_true_iff hn hf).2 (.inl hb)
  | @vector node element lanes bits hn hk hf hint hlane =>
    cases hc : node.content with
    | aggregate elements =>
      have hsize : lanes.toNat = elements.toList.length :=
        Option.some.inj (hw.fills hn hc hf).1
      refine (hw.hasAllSet_eq_true_iff hn hf).2 (.inr ⟨elements, hc, rfl, fun e he => ?_⟩)
      obtain ⟨i, hi, rfl⟩ := Array.mem_iff_getElem.1 he
      obtain ⟨e, he', hmade⟩ := hlane i (by rwa [hsize, Array.length_toList])
      rw [hc] at he'
      cases (Array.getElem?_eq_getElem hi).symm.trans he'
      obtain ⟨m, hm, hb, -⟩ := madeOfOnes_iff.1 hmade
      exact ⟨m, hm, hb⟩
    | _ => rw [hc] at hk; cases hk

/-- The masks after a run of commands are the values that were made as masks. -/
structure DecidesMasks (commands : List Command) : Prop where
  made : ∀ v, ((commands.foldl after empty).view.hasAllSet v).answer = .ok true ↔ IsMask commands v
  laneless : ∀ v, (commands.foldl after empty).Laneless v →
    ((commands.foldl after empty).view.hasAllSet v).answer ≠ .ok true
  nonInteger : ∀ v, (commands.foldl after empty).NonInteger v →
    ((commands.foldl after empty).view.hasAllSet v).answer ≠ .ok true
  nonIntegerLane : ∀ v lane, (commands.foldl after empty).Uses v lane →
    (commands.foldl after empty).NonInteger lane →
    ((commands.foldl after empty).view.hasAllSet v).answer ≠ .ok true

/-- Every run of commands makes masks of literals made of ones, and of nothing else. -/
theorem run_decidesMasks (commands : List Command) : DecidesMasks commands := by
  have hw : (commands.foldl after empty).WF := foldl_after_wf commands
  exact ⟨fun v => ⟨isMask_of_hasAllSet, IsMask.hasAllSet⟩, fun v hl h => hw.not_laneless h hl,
    fun v hk h => (hw.not_nonInteger_of_mask h).1 hk,
    fun v lane hu hk h => (hw.not_nonInteger_of_mask h).2 lane hu hk⟩

/-- Of a number above 32 bits only the low ones count, so the lanes make a mask. -/
example : (([.intType 64, .vectorType ⟨0⟩ 2, .constInt ⟨0⟩ 0x2FFFFFFFF, .constSplat ⟨1⟩ ⟨0⟩].foldl after
    empty).view.hasAllSet ⟨1⟩).answer = .ok true := by decide +kernel

end Lanewise.Graph
