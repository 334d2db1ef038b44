/-
Aggregates and their elements. What the analyses answer for an aggregate constant is put together from what they
answered for its elements before it was made, and a splat is answered for as the value that it repeats
(`aggregate_combines`).
-/
import Lanewise.Proofs.Graph.Aggregate
import Lanewise.Proofs.View.Stability

namespace Lanewise

/-! ## Asking all -/

section
variable {m : Type → Type} [Monad m] {α : Type} {p q : α → m Bool} {xs : List α} {x : α} {n : Nat}

theorem allM_congr (h : ∀ x ∈ xs, p x = q x) : xs.allM p = xs.allM q := by
  induction xs with
  | nil => rfl
  | cons x xs ih =>
    rw [List.forall_mem_cons] at h
    rw [List.allM_cons, List.allM_cons, h.1, ih h.2]

/-- A test that may be made once more may be made any number of times. -/
theorem allM_replicate [LawfulMonad m] (hp : (do if ← p x then p x else return false) = p x) (hn : n ≠ 0) :
    (List.replicate n x).allM p = p x := by
  induction n with
  | zero => exact absurd rfl hn
  | succ n ih =>
    rw [List.replicate_succ, List.allM_cons]
    cases n with
    | zero =>
      have hid : ∀ b : Bool, (if b = true then pure true else pure false : m Bool) = pure b := by
        intro b
        cases b <;> rfl
      simp only [List.replicate_zero, List.allM_nil, hid, bind_pure]
    | succ n => rw [ih (Nat.succ_ne_zero n), hp]

end

theorem Except.ask_again {ε : Type} (r : Except ε Bool) : (do if ← r then r else return false) = r := by
  rcases r with e | _ | _
  · rfl
  · rfl
  · rfl

/-- A query that says nothing where it passes may be asked again. -/
theorem Query.ask_again {q : Query Bool} (h : q.answer = .ok true → q.events = []) :
    (do if ← q then q else return false) = q := by
  obtain ⟨events, e | _ | _⟩ := q
  · rfl
  · simp
  · obtain rfl : events = [] := h rfl
    rfl

theorem exists_allM_answer {α ε : Type} {p : α → Except ε Bool} {xs : List α} (h : ∀ x ∈ xs, ∃ b, p x = .ok b) :
    ∃ b, xs.allM p = .ok b ∧ (b = true ↔ ∀ x ∈ xs, p x = .ok true) := by
  obtain ⟨b, hb⟩ := exists_allM_eq_ok h
  refine ⟨b, hb, ?_⟩
  rw [← allM_eq_true_iff, hb, Except.ok.injEq]

theorem View.bitsSet_events {V T : Type} {view : View V T} {v : V} (h : (view.bitsSet v).answer = .ok true) :
    (view.bitsSet v).events = [] := by
  rw [bitsSet, constantInt] at h ⊢
  cases hl : view.intLiteral v with
  | error fault => rfl
  | ok literal =>
    rw [hl] at h
    cases literal with
    | none => cases h
    | some value => rfl

namespace Graph

variable {g : Graph} {type : TypeId} {form : TypeForm} {elements : List ValueId} {v : ValueId}

/-! ## Values that are there before -/

/-- The analyses answer for the value on one graph what they answer on the other. -/
structure Unaffected (g g' : Graph) (v : ValueId) : Prop where
  allDefined : g'.view.allDefined v = g.view.allDefined v
  allUndefined : g'.view.allUndefined v = g.view.allUndefined v
  allUndefinedDeep : g'.view.allUndefinedDeep v = g.view.allUndefinedDeep v
  bitsSet : g'.view.bitsSet v = g.view.bitsSet v
  hasAllSet : g'.view.hasAllSet v = g.view.hasAllSet v

/-- A value that is made does not reach into the answers for the others. -/
theorem WF.unaffected (hw : g.WF) (hv : g.HasValue v) (node : Node) : g.Unaffected (g.withNode node) v := by
  have he := withNode_extends g node
  have halike := he.alike hw
  have hwalks : g.view.allDefined v = (g.withNode node).view.allDefined v ∧
      g.view.allUndefinedDeep v = (g.withNode node).view.allUndefinedDeep v := by
    apply he.walks_eq hw hv
    intro u n n' _ hn hn'
    cases hn'.symm.trans (node?_withNode_of_some hn)
    rfl
  constructor
  · exact hwalks.1.symm
  · exact (halike.isUndef_eq ⟨rfl, hv⟩).symm
  · exact hwalks.2.symm
  · exact (halike.bitsSet_eq ⟨rfl, hv⟩).symm
  · exact (halike.hasAllSet_eq ⟨rfl, hv⟩).symm

/-! ## The lanes of a vector -/

section
variable {element : TypeId} {lanes : UInt32} (hw : g.WF)
  (hf : g.types.form? type = some (.vector element lanes)) (hfill : g.Fills (.vector element lanes) elements)
  (hv : v ∈ elements)
include hw hf hfill hv

theorem WF.exists_scalar_lane : ∃ node form, g.node? v = some node ∧ node.content.kind.isConstant = true ∧
    g.types.form? node.type = some form ∧ form.shape.isAggregate = false := by
  obtain ⟨⟨form, hform, hscalar⟩, -⟩ := hw.types.admissible _ _ hf
  obtain ⟨i, hi⟩ := List.mem_iff_getElem?.1 hv
  obtain ⟨node, hn, hk, ht⟩ := hfill.2 i v hi
  have hlt : i < elements.length := (List.getElem?_eq_some_iff.1 hi).1
  have hcount : lanes.toNat = elements.length := Option.some.inj hfill.1
  have htype : element = node.type := by
    simpa [TypeForm.element?, hcount, hlt] using ht
  refine ⟨node, form, hn, hk, htype ▸ hform, ?_⟩
  cases form with
  | int | float | pointer => rfl
  | _ => cases hscalar

theorem WF.hasAllSet_of_lane : g.view.hasAllSet v = g.view.bitsSet v := by
  obtain ⟨node, form, hn, hk, hform, ha⟩ := hw.exists_scalar_lane hf hfill hv
  rw [View.hasAllSet_eq (reads hn).kind (valueShape_eq hn hform), if_pos hk, Shape.isScalar, ha]
  rfl

theorem WF.exists_hasAllSet_of_lane : ∃ b, (g.view.hasAllSet v).answer = .ok b := by
  obtain ⟨node, hn⟩ := hfill.hasValue v hv
  rw [hw.hasAllSet_of_lane hf hfill hv]
  exact ⟨_, bitsSet_answer hn⟩

theorem WF.walks_of_lane : (∃ b, g.view.allDefined v = .ok b) ∧ ∃ b, g.view.allUndefinedDeep v = .ok b := by
  obtain ⟨node, form, hn, -, hform, ha⟩ := hw.exists_scalar_lane hf hfill hv
  rw [allDefined_of_node hn hform, allUndefinedDeep_of_node hn hform, ha]
  by_cases hk : node.content.kind = .undef
  · simp [hk]
  · simp [hk]

end

/-! ## The aggregate that is made -/

section
variable (hw : g.WF) (hf : g.types.form? type = some form) (hfill : g.Fills form elements)
include hw hf hfill

theorem WF.allDefined_withAggregate :
    (g.withAggregate type elements).view.allDefined ⟨g.size⟩ = elements.allM g.view.allDefined := by
  rw [allDefined_of_node (g.node?_withAggregate type elements) hf, if_neg (by rintro ⟨⟩), if_pos hfill.isAggregate]
  apply allM_congr
  intro e he
  exact (hw.unaffected (hfill.hasValue e he) _).allDefined

theorem WF.allUndefinedDeep_withAggregate :
    (g.withAggregate type elements).view.allUndefinedDeep ⟨g.size⟩ =
      if elements = [] then .ok false else elements.allM g.view.allUndefinedDeep := by
  rw [allUndefinedDeep_of_node (g.node?_withAggregate type elements) hf, if_neg (by rintro ⟨⟩),
    if_pos hfill.isAggregate]
  simp only [Content.operands, List.size_toArray, List.length_eq_zero_iff]
  congr 1
  apply allM_congr
  intro e he
  exact (hw.unaffected (hfill.hasValue e he) _).allUndefinedDeep

end

theorem allUndefined_withAggregate (g : Graph) (type : TypeId) (elements : List ValueId) :
    (g.withAggregate type elements).view.allUndefined ⟨g.size⟩ = .ok false :=
  allUndefined_of_node (g.node?_withAggregate type elements)

/-- A vector is asked for as its lanes are, with the lines they write. -/
theorem WF.hasAllSet_withAggregate (hw : g.WF) {element : TypeId} {lanes : UInt32}
    (hf : g.types.form? type = some (.vector element lanes)) (hfill : g.Fills (.vector element lanes) elements) :
    (g.withAggregate type elements).view.hasAllSet ⟨g.size⟩ = elements.allM g.view.hasAllSet := by
  have hw' : (g.withAggregate type elements).WF := hw.withNode ⟨_, hf, hfill⟩
  rw [hw'.hasAllSet_eq (g.node?_withAggregate type elements) hf]
  apply allM_congr
  intro e he
  rw [hw.hasAllSet_of_lane hf hfill he]
  exact (hw.unaffected (hfill.hasValue e he) _).bitsSet

/-! ## Aggregates and splats -/

/-- What is answered on `g'` for an aggregate of elements that were there on `g`. -/
structure Combines (g g' : Graph) (type : TypeId) (elements : List ValueId) (v : ValueId) : Prop where
  unaffected : ∀ e ∈ elements, g.Unaffected g' e
  answered : ∀ e ∈ elements, (∃ b, g.view.allDefined e = .ok b) ∧ ∃ b, g.view.allUndefinedDeep e = .ok b
  allDefined : ∃ b, g'.view.allDefined v = .ok b ∧
    (b = true ↔ ∀ e ∈ elements, g.view.allDefined e = .ok true)
  allUndefinedDeep : ∃ b, g'.view.allUndefinedDeep v = .ok b ∧
    (b = true ↔ elements ≠ [] ∧ ∀ e ∈ elements, g.view.allUndefinedDeep e = .ok true)
  allUndefined : g'.view.allUndefined v = .ok false
  hasAllSet : ∀ element lanes, g.types.form? type = some (.vector element lanes) →
    (∀ e ∈ elements, ∃ b, (g.view.hasAllSet e).answer = .ok b) ∧ ∃ b, (g'.view.hasAllSet v).answer = .ok b ∧
      (b = true ↔ ∀ e ∈ elements, (g.view.hasAllSet e).answer = .ok true)

/-- What is answered on `g'` for the splat `s` of a value `v` that was there on `g`. -/
structure Repeats (g g' : Graph) (v s : ValueId) : Prop where
  unaffected : g.Unaffected g' v
  allDefined : ∃ b, g.view.allDefined v = .ok b ∧ g'.view.allDefined s = .ok b
  allUndefinedDeep : ∃ b, g.view.allUndefinedDeep v = .ok b ∧ g'.view.allUndefinedDeep s = .ok b
  answered : ∃ b, (g.view.hasAllSet v).answer = .ok b
  hasAllSet : g'.view.hasAllSet s = g.view.hasAllSet v

theorem WF.combines (hw : g.WF) (hf : g.types.form? type = some form) (hfill : g.Fills form elements)
    (hacyclic : ∀ e ∈ elements, g.view.Acyclic e) :
    g.Combines (g.withAggregate type elements) type elements ⟨g.size⟩ := by
  have hwalks : ∀ e ∈ elements,
      (∃ b, g.view.allDefined e = .ok b) ∧ ∃ b, g.view.allUndefinedDeep e = .ok b := by
    intro e he
    obtain ⟨defined, undefined, hd, hu, -⟩ := hw.walksExclusive (hfill.hasValue e he) (hacyclic e he)
    exact ⟨⟨defined, hd⟩, undefined, hu⟩
  constructor
  case unaffected => exact fun e he => hw.unaffected (hfill.hasValue e he) _
  case answered => exact hwalks
  case allDefined =>
    rw [hw.allDefined_withAggregate hf hfill]
    exact exists_allM_answer fun e he => (hwalks e he).1
  case allUndefinedDeep =>
    rw [hw.allUndefinedDeep_withAggregate hf hfill]
    by_cases hnil : elements = []
    · exact ⟨false, if_pos hnil, by simp [hnil]⟩
    · rw [if_neg hnil]
      simp only [ne_eq, hnil, not_false_eq_true, true_and]
      exact exists_allM_answer fun e he => (hwalks e he).2
  case allUndefined => exact allUndefined_withAggregate g type elements
  case hasAllSet =>
    intro element lanes hvec
    cases hf.symm.trans hvec
    have hlane : ∀ e ∈ elements, ∃ b, (g.view.hasAllSet e).answer = .ok b :=
      fun e he => hw.exists_hasAllSet_of_lane hf hfill he
    refine ⟨hlane, ?_⟩
    rw [hw.hasAllSet_withAggregate hf hfill, Query.answer_allM]
    exact exists_allM_answer hlane

theorem WF.repeats (hw : g.WF) {element : TypeId} {lanes : UInt32}
    (hf : g.types.form? type = some (.vector element lanes))
    (hfill : g.Fills (.vector element lanes) (List.replicate lanes.toNat v)) :
    g.Repeats (g.withAggregate type (List.replicate lanes.toNat v)) v ⟨g.size⟩ := by
  -- a vector has a lane, so the value is one of those repeated
  have hlanes : lanes.toNat ≠ 0 := by
    intro h
    exact (hw.types.admissible _ _ hf).2 (UInt32.toNat_inj.1 h)
  have hv : v ∈ List.replicate lanes.toNat v := List.mem_replicate.2 ⟨hlanes, rfl⟩
  obtain ⟨⟨defined, hd⟩, undefined, hu⟩ := hw.walks_of_lane hf hfill hv
  constructor
  case unaffected => exact hw.unaffected (hfill.hasValue v hv) _
  case allDefined =>
    refine ⟨defined, hd, ?_⟩
    rw [hw.allDefined_withAggregate hf hfill, allM_replicate (Except.ask_again _) hlanes, hd]
  case allUndefinedDeep =>
    refine ⟨undefined, hu, ?_⟩
    rw [hw.allUndefinedDeep_withAggregate hf hfill, if_neg (List.ne_nil_of_mem hv),
      allM_replicate (Except.ask_again _) hlanes, hu]
  case answered => exact hw.exists_hasAllSet_of_lane hf hfill hv
  case hasAllSet =>
    have hask : (g.view.hasAllSet v).answer = .ok true → (g.view.hasAllSet v).events = [] := by
      rw [hw.hasAllSet_of_lane hf hfill hv]
      exact View.bitsSet_events
    rw [hw.hasAllSet_withAggregate hf hfill, allM_replicate (Query.ask_again hask) hlanes]

/-- The analyses answer for an aggregate that is made by what they answered for its elements, and for a splat as they
answered for its value. -/
theorem aggregate_combines (h : g.Reachable) :
    (∀ type elements v g', (Command.constAggregate type elements).perform g = (.ok (.value v), g') →
      (∀ e ∈ elements, g.view.Acyclic e) → g.Combines g' type elements v) ∧
    ∀ type v s g', (Command.constSplat type v).perform g = (.ok (.value s), g') → g.Repeats g' v s := by
  constructor
  · intro type elements v g' hp hacyclic
    obtain ⟨⟨form, hf, -, hfill⟩, hr, rfl⟩ := perform_constAggregate_ok_iff.1 hp
    cases hr
    exact h.wf.combines hf hfill hacyclic
  · intro type v s g' hp
    obtain ⟨element, lanes, hf, hfill, hr, rfl⟩ := perform_constSplat_ok_iff.1 hp
    cases hr
    exact h.wf.repeats hf hfill

theorem hollow_acyclic (hv : hollow.HasValue v) : hollow.view.Acyclic v := by
  have hr : hollow.Reachable := Reachable.empty.foldl_after _
  have hphi : ∀ n ∈ hollow.nodes.toList, n.content.opcode? ≠ some .phi := by decide +kernel
  apply hr.wf.acyclic_of_no_phi hr.operandsOlder hv
  rintro u w - - ⟨node, hn, hp⟩
  exact hphi node (Array.mem_toList_iff.2 (Array.mem_of_getElem? hn)) hp

/-- A mask of one lane and an undefined one, and the splat of the undefined lane. -/
theorem aggregate_combines_hollow : hollow.Reachable ∧
    (Command.constAggregate ⟨1⟩ [⟨2⟩, ⟨0⟩]).perform hollow =
      (.ok (.value ⟨4⟩), hollow.after (.constAggregate ⟨1⟩ [⟨2⟩, ⟨0⟩])) ∧
    (∀ e ∈ [(⟨2⟩ : ValueId), ⟨0⟩], hollow.view.Acyclic e) ∧
    hollow.Combines (hollow.after (.constAggregate ⟨1⟩ [⟨2⟩, ⟨0⟩])) ⟨1⟩ [⟨2⟩, ⟨0⟩] ⟨4⟩ ∧
    (Command.constSplat ⟨1⟩ ⟨0⟩).perform hollow = (.ok (.value ⟨4⟩), hollow.after (.constSplat ⟨1⟩ ⟨0⟩)) ∧
    hollow.Repeats (hollow.after (.constSplat ⟨1⟩ ⟨0⟩)) ⟨0⟩ ⟨4⟩ ∧
    (hollow.view.hasAllSet ⟨0⟩).reports = [.nonSimpleConstant] := by
  have hr : hollow.Reachable := Reachable.empty.foldl_after _
  have hp : (Command.constAggregate ⟨1⟩ [⟨2⟩, ⟨0⟩]).perform hollow =
      (.ok (.value ⟨4⟩), hollow.after (.constAggregate ⟨1⟩ [⟨2⟩, ⟨0⟩])) :=
    Prod.ext (by decide +kernel) rfl
  have hs : (Command.constSplat ⟨1⟩ ⟨0⟩).perform hollow =
      (.ok (.value ⟨4⟩), hollow.after (.constSplat ⟨1⟩ ⟨0⟩)) :=
    Prod.ext (by decide +kernel) rfl
  have hacyclic : ∀ e ∈ [(⟨2⟩ : ValueId), ⟨0⟩], hollow.view.Acyclic e := by
    intro e he
    apply hollow_acyclic
    apply exists_node?
    revert e
    decide +kernel
  obtain ⟨haggregate, hsplat⟩ := aggregate_combines hr
  exact ⟨hr, hp, hacyclic, haggregate _ _ _ _ hp hacyclic, hs, hsplat _ _ _ _ hs, by decide +kernel⟩

end Graph

end Lanewise
