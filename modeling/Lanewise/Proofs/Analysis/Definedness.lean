/-
How the value predicates go together: what is all undefined in the shallow sense is so in the deep sense, what is
so in the deep sense is not all defined, and a mask is all defined.
-/
import Lanewise.Proofs.Analysis.Mask
import Lanewise.Proofs.Graph.Operands

namespace Lanewise.Graph

variable {g : Graph} {v : ValueId} {node : Node} {form : TypeForm}

/-! ## The walks at a node -/

theorem visit_bind_of_node {α : Type} (hn : g.node? v = some node)
    (hf : g.types.form? node.type = some form) (undefined : Bool)
    (aggregate : ValueId → Except Fault (Visit ValueId)) (next : Visit ValueId → Except Fault α) :
    g.view.visit undefined aggregate v >>= next =
      if node.content.kind = .undef then next (.settled undefined)
      else if form.shape.isAggregate then aggregate v >>= next
      else next (.settled !undefined) := by
  rw [View.visit_bind, isUndef_eq hn, valueShape_eq hn hf]
  by_cases hk : node.content.kind = .undef
  · rw [if_pos hk, hk]
    rfl
  · rw [if_neg hk, beq_eq_false_iff_ne.2 hk]
    rfl

theorem allDefined_of_node (hn : g.node? v = some node) (hf : g.types.form? node.type = some form) :
    g.view.allDefined v =
      if node.content.kind = .undef then .ok false
      else if form.shape.isAggregate then node.content.operands.toList.allM g.view.allDefined
      else .ok true := by
  rw [View.allDefined_eq, View.visitDefined, visit_bind_of_node hn hf, View.allOperands_bind, (reads hn).operands]
  have hs : Scan.allM g.view.allDefined (.ofList node.content.operands.toList) =
      node.content.operands.toList.allM g.view.allDefined :=
    Scan.allM_eq_of_toList _ (Scan.toList_ofList _)
  rw [← hs]
  rfl

theorem allUndefinedDeep_of_node (hn : g.node? v = some node) (hf : g.types.form? node.type = some form) :
    g.view.allUndefinedDeep v =
      if node.content.kind = .undef then .ok true
      else if form.shape.isAggregate then
        if node.content.operands.size = 0 then .ok false
        else node.content.operands.toList.allM g.view.allUndefinedDeep
      else .ok false := by
  rw [View.allUndefinedDeep_eq, View.visitUndefined, visit_bind_of_node hn hf, View.someOperands_bind,
    (reads hn).operands, (reads hn).operandCount]
  have hs : Scan.allM g.view.allUndefinedDeep (.ofList node.content.operands.toList) =
      node.content.operands.toList.allM g.view.allUndefinedDeep :=
    Scan.allM_eq_of_toList _ (Scan.toList_ofList _)
  rw [← hs]
  rfl

theorem allUndefined_of_node (hn : g.node? v = some node) :
    g.view.allUndefined v = .ok (node.content.kind == .undef) :=
  isUndef_eq hn

theorem walks_of_scalar (hn : g.node? v = some node) (hf : g.types.form? node.type = some form)
    (hk : node.content.kind ≠ .undef) (ha : form.shape.isAggregate ≠ true) :
    g.view.allDefined v = .ok true ∧ g.view.allUndefinedDeep v = .ok false := by
  rw [allDefined_of_node hn hf, allUndefinedDeep_of_node hn hf, if_neg hk, if_neg hk, if_neg ha, if_neg ha]
  exact ⟨rfl, rfl⟩

/-! ## Together -/

/-- Of two questions that are answered of each value, and never both with yes, the same holds when all values of a
list are asked, unless there is none. -/
theorem allM_exclusive {α : Type} {p q : α → Except Fault Bool} {xs : List α} (hne : xs ≠ [])
    (h : ∀ x ∈ xs, ∃ a b, p x = .ok a ∧ q x = .ok b ∧ (b = true → a = false)) :
    ∃ a b, xs.allM p = .ok a ∧ xs.allM q = .ok b ∧ (b = true → a = false) := by
  have hp : ∀ x ∈ xs, ∃ a, p x = .ok a := by
    intro x hx
    obtain ⟨a, -, ha, -⟩ := h x hx
    exact ⟨a, ha⟩
  have hq : ∀ x ∈ xs, ∃ b, q x = .ok b := by
    intro x hx
    obtain ⟨-, b, -, hb, -⟩ := h x hx
    exact ⟨b, hb⟩
  obtain ⟨a, ha⟩ := exists_allM_eq_ok hp
  obtain ⟨b, hb⟩ := exists_allM_eq_ok hq
  refine ⟨a, b, ha, hb, ?_⟩
  rintro rfl
  -- of any value the second answer is yes, so the first is no
  obtain ⟨x, hx⟩ := List.exists_mem_of_ne_nil xs hne
  obtain ⟨a', b', ha', hb', hexcl⟩ := h x hx
  have hyes := allM_eq_true_iff.1 hb x hx
  rw [hb'] at hyes
  have hno : a' = false := hexcl (Except.ok.inj hyes)
  cases a with
  | false => rfl
  | true =>
    have hyes := allM_eq_true_iff.1 ha x hx
    rw [ha', hno] at hyes
    cases hyes

/-- Both walks are answered, and not both with yes. -/
def WalksExclusive (g : Graph) (v : ValueId) : Prop :=
  ∃ defined undefined, g.view.allDefined v = .ok defined ∧ g.view.allUndefinedDeep v = .ok undefined ∧
    (undefined = true → defined = false)

theorem WF.walksExclusive (hw : g.WF) (hv : g.HasValue v) (h : g.view.Acyclic v) : g.WalksExclusive v := by
  refine hw.descent_induction (motive := g.WalksExclusive) (fun v node form hn hf ih => ?_) hv h
  unfold WalksExclusive
  by_cases hk : node.content.kind = .undef
  · rw [allDefined_of_node hn hf, allUndefinedDeep_of_node hn hf, if_pos hk, if_pos hk]
    exact ⟨false, true, rfl, rfl, fun _ => rfl⟩
  by_cases ha : form.shape.isAggregate = true
  · rw [allDefined_of_node hn hf, allUndefinedDeep_of_node hn hf, if_neg hk, if_neg hk, if_pos ha, if_pos ha]
    by_cases hs : node.content.operands.size = 0
    · rw [if_pos hs, Array.toList_eq_nil_iff.2 (Array.size_eq_zero_iff.1 hs)]
      exact ⟨true, false, rfl, rfl, by rintro ⟨⟩⟩
    · rw [if_neg hs]
      have hne : node.content.operands.toList ≠ [] := by
        rw [ne_eq, Array.toList_eq_nil_iff, ← Array.size_eq_zero_iff]
        exact hs
      exact allM_exclusive hne fun u hu => ih ha u (Array.mem_toList_iff.1 hu)
  · obtain ⟨hd, hu⟩ := walks_of_scalar hn hf hk ha
    exact ⟨true, false, hd, hu, by rintro ⟨⟩⟩

theorem WF.walks_of_bitsSet (hw : g.WF) (hn : g.node? v = some node) (h : node.content.bitsSet = true) :
    g.view.allDefined v = .ok true ∧ g.view.allUndefinedDeep v = .ok false := by
  cases hc : node.content with
  | int value =>
    obtain ⟨bits, hf⟩ := hw.exists_int hn hc
    exact walks_of_scalar hn hf (by rw [hc]; rintro ⟨⟩) (by rintro ⟨⟩)
  | _ => rw [hc] at h; cases h

theorem WF.lanes_ne_nil {elements : Array ValueId} (hw : g.WF) (hn : g.node? v = some node)
    (hf : g.types.form? node.type = some form) (hc : node.content = .aggregate elements)
    (hvec : form.shape.isVector = true) : elements.toList ≠ [] := by
  have hadm := hw.types.admissible _ _ hf
  have hcount := (hw.fills hn hc hf).1
  cases form with
  | vector element lanes =>
    intro hnil
    have hlanes : lanes.toNat = elements.toList.length := Option.some.inj hcount
    rw [hnil] at hlanes
    exact hadm.2 (UInt32.toNat_inj.1 hlanes)
  | _ => cases hvec

/-- A mask is made of literals and has a lane, so it is all defined and not all undefined. -/
theorem WF.walks_of_mask (hw : g.WF) (hv : g.HasValue v) (h : (g.view.hasAllSet v).answer = .ok true) :
    g.view.allDefined v = .ok true ∧ g.view.allUndefinedDeep v = .ok false := by
  obtain ⟨node, hn⟩ := hv
  obtain ⟨form, hf⟩ := hw.exists_form hn
  rcases (hw.hasAllSet_eq_true_iff hn hf).1 h with hb | ⟨elements, hc, hvec, hones⟩
  · exact hw.walks_of_bitsSet hn hb
  have hlane : ∀ e ∈ elements.toList, g.view.allDefined e = .ok true ∧ g.view.allUndefinedDeep e = .ok false := by
    intro e he
    obtain ⟨m, hm, hb⟩ := hones e (Array.mem_toList_iff.1 he)
    exact hw.walks_of_bitsSet hm hb
  have hk : node.content.kind ≠ .undef := by rw [hc]; rintro ⟨⟩
  have hops : node.content.operands = elements := by rw [hc]; rfl
  have hne : elements.toList ≠ [] := hw.lanes_ne_nil hn hf hc hvec
  have hsize : elements.size ≠ 0 := by
    rw [ne_eq, Array.size_eq_zero_iff, ← Array.toList_eq_nil_iff]
    exact hne
  have ha : form.shape.isAggregate = true := by
    cases hs : form.shape with
    | vector element lanes => rfl
    | _ => rw [hs] at hvec; cases hvec
  rw [allDefined_of_node hn hf, allUndefinedDeep_of_node hn hf, if_neg hk, if_neg hk, if_pos ha, if_pos ha, hops,
    if_neg hsize]
  refine ⟨allM_eq_true_iff.2 fun e he => (hlane e he).1, ?_⟩
  -- the first lane is not all undefined
  obtain ⟨e, es, hes⟩ := List.exists_cons_of_ne_nil hne
  have he : g.view.allUndefinedDeep e = .ok false := (hlane e (by rw [hes]; exact List.mem_cons_self ..)).2
  rw [hes, List.allM, he]
  rfl

/-- How the value predicates go together at a value. -/
structure PredicatesAgree (g : Graph) (v : ValueId) : Prop where
  answered : ∃ defined shallow deep, g.view.allDefined v = .ok defined ∧ g.view.allUndefined v = .ok shallow ∧
    g.view.allUndefinedDeep v = .ok deep
  deep_of_shallow : g.view.allUndefined v = .ok true → g.view.allUndefinedDeep v = .ok true
  recursive_of_topLevel : g.view.fullyUndefined .topLevel v = .ok true →
    g.view.fullyUndefined .recursive v = .ok true
  not_defined_of_deep : g.view.allUndefinedDeep v = .ok true → g.view.allDefined v = .ok false
  aggregate_of_differ : g.view.fullyUndefined .topLevel v ≠ g.view.fullyUndefined .recursive v →
    ∃ node form, g.node? v = some node ∧ node.content.kind ≠ .undef ∧
      g.types.form? node.type = some form ∧ form.shape.isAggregate = true ∧ node.content.operands.size ≠ 0
  defined_of_mask : (g.view.hasAllSet v).answer = .ok true →
    g.view.allDefined v = .ok true ∧ g.view.allUndefinedDeep v = .ok false

theorem WF.deep_of_shallow (hw : g.WF) (hv : g.HasValue v) (h : g.view.allUndefined v = .ok true) :
    g.view.allUndefinedDeep v = .ok true := by
  obtain ⟨node, hn⟩ := hv
  obtain ⟨form, hf⟩ := hw.exists_form hn
  rw [allUndefined_of_node hn] at h
  have hk : node.content.kind = .undef := beq_iff_eq.1 (Except.ok.inj h)
  rw [allUndefinedDeep_of_node hn hf, if_pos hk]

theorem WF.aggregate_of_differ (hw : g.WF) (hv : g.HasValue v)
    (h : g.view.allUndefined v ≠ g.view.allUndefinedDeep v) : ∃ node form, g.node? v = some node ∧
      node.content.kind ≠ .undef ∧ g.types.form? node.type = some form ∧ form.shape.isAggregate = true ∧
      node.content.operands.size ≠ 0 := by
  obtain ⟨node, hn⟩ := hv
  obtain ⟨form, hf⟩ := hw.exists_form hn
  rw [allUndefined_of_node hn, allUndefinedDeep_of_node hn hf] at h
  by_cases hk : node.content.kind = .undef
  · rw [if_pos hk, hk] at h
    exact absurd rfl h
  rw [if_neg hk, beq_eq_false_iff_ne.2 hk] at h
  by_cases ha : form.shape.isAggregate = true
  · rw [if_pos ha] at h
    by_cases hs : node.content.operands.size = 0
    · rw [if_pos hs] at h
      exact absurd rfl h
    · exact ⟨node, form, hn, hk, hf, ha, hs⟩
  · rw [if_neg ha] at h
    exact absurd rfl h

/-- The value predicates go together at every value with an acyclic descent. -/
theorem predicates_agree (h : g.Reachable) (hv : g.HasValue v) (ha : g.view.Acyclic v) : g.PredicatesAgree v := by
  have hw := h.wf
  obtain ⟨node, hn⟩ := hv
  obtain ⟨defined, deep, hdefined, hdeep, hexcl⟩ := hw.walksExclusive ⟨node, hn⟩ ha
  refine ⟨⟨defined, _, deep, hdefined, allUndefined_of_node hn, hdeep⟩, hw.deep_of_shallow ⟨node, hn⟩,
    hw.deep_of_shallow ⟨node, hn⟩, fun hd => ?_, hw.aggregate_of_differ ⟨node, hn⟩, hw.walks_of_mask ⟨node, hn⟩⟩
  rw [hdeep] at hd
  rw [hdefined, hexcl (Except.ok.inj hd)]

/-- A vector of undefined lanes and a mask. -/
def hollow : Graph :=
  [.intType 8, .vectorType ⟨0⟩ 2, .undef ⟨0⟩, .constSplat ⟨1⟩ ⟨0⟩, .constInt ⟨0⟩ 255, .constSplat ⟨1⟩ ⟨2⟩].foldl
    after empty

/-- The vector of undefined lanes is all undefined in the deep sense alone. -/
theorem predicates_agree_hollow : hollow.Reachable ∧ hollow.HasValue ⟨1⟩ ∧ hollow.view.Acyclic ⟨1⟩ ∧
    hollow.PredicatesAgree ⟨1⟩ ∧ hollow.view.fullyUndefined .topLevel ⟨1⟩ = .ok false ∧
    hollow.view.fullyUndefined .recursive ⟨1⟩ = .ok true := by
  have hr : hollow.Reachable := Reachable.empty.foldl_after _
  have hv : hollow.HasValue ⟨1⟩ := exists_node? (by decide +kernel)
  have hphi : ∀ n ∈ hollow.nodes.toList, n.content.opcode? ≠ some .phi := by decide +kernel
  have ha : hollow.view.Acyclic ⟨1⟩ := by
    refine hr.wf.acyclic_of_no_phi hr.operandsOlder hv ?_
    rintro u w - - ⟨node, hn, hp⟩
    exact hphi node (Array.mem_toList_iff.2 (Array.mem_of_getElem? hn)) hp
  exact ⟨hr, hv, ha, predicates_agree hr hv ha, by decide +kernel, by decide +kernel⟩

end Lanewise.Graph
