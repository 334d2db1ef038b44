/-
What the walks decide, told by what the descent reaches. Where the descent is acyclic, a value is all defined just
when no way down from it ends at an undefined value (`allDefined_iff_no_path`), and all undefined in the deep
sense just when each of its leaves is undefined (`allUndefinedDeep_iff_leaves`).
-/
import Lanewise.Proofs.Analysis.Definedness

namespace Lanewise.Graph

variable {g : Graph} {v w x : ValueId} {node : Node} {form : TypeForm}

/-! ## Undefined values and aggregates -/

/-- The value is there and is itself undefined. -/
def IsUndef (g : Graph) (v : ValueId) : Prop :=
  ∃ node ∈ g.node? v, (node.content.kind = .undef)

/-- The value is there and has a vector, array or struct type. -/
def IsAggregate (g : Graph) (v : ValueId) : Prop :=
  ∃ node ∈ g.node? v, ∃ form ∈ g.types.form? node.type, form.shape.isAggregate = true

instance (g : Graph) (v : ValueId) : Decidable (g.IsUndef v) :=
  inferInstanceAs (Decidable (∃ node ∈ g.node? v, _))

instance (g : Graph) (v : ValueId) : Decidable (g.IsAggregate v) :=
  inferInstanceAs (Decidable (∃ node ∈ g.node? v, ∃ form ∈ g.types.form? node.type, _))

instance (g : Graph) (v w : ValueId) : Decidable (g.Uses v w) :=
  inferInstanceAs (Decidable (∃ node ∈ g.node? v, w ∈ node.content.operands))

theorem isUndef_iff (hn : g.node? v = some node) : g.IsUndef v ↔ node.content.kind = .undef := by
  constructor
  · rintro ⟨m, hm, hk⟩
    cases hn.symm.trans hm
    exact hk
  · exact fun hk => ⟨node, hn, hk⟩

theorem isAggregate_iff (hn : g.node? v = some node) (hf : g.types.form? node.type = some form) :
    g.IsAggregate v ↔ form.shape.isAggregate = true := by
  constructor
  · rintro ⟨m, hm, f, hf', ha⟩
    cases hn.symm.trans hm
    cases hf.symm.trans hf'
    exact ha
  · exact fun ha => ⟨node, hn, form, hf, ha⟩

theorem uses_iff (hn : g.node? v = some node) : g.Uses v w ↔ w ∈ node.content.operands := by
  constructor
  · rintro ⟨m, hm, hw⟩
    cases hn.symm.trans hm
    exact hw
  · exact fun hw => ⟨node, hn, hw⟩

theorem exists_of_valueShape {shape : Shape TypeId} (h : g.view.valueShape v = .ok shape) :
    ∃ node form, g.node? v = some node ∧ g.types.form? node.type = some form := by
  cases hn : g.node? v with
  | none =>
    have ht : g.view.type v = .error .danglingValue := node_bind_of_none hn _
    rw [View.valueShape, ht] at h
    cases h
  | some node =>
    rw [View.valueShape, (reads hn).type] at h
    cases hf : g.types.form? node.type with
    | none =>
      have hs : g.view.shape node.type = .error .danglingType := by
        show g.form node.type >>= _ = _
        rw [Graph.form, hf]
        rfl
      cases hs.symm.trans h
    | some form => exact ⟨node, form, rfl, hf⟩

theorem descends_iff_uses : g.view.Descends v w ↔ g.IsAggregate v ∧ g.Uses v w := by
  constructor
  · intro h
    obtain ⟨shape, -, hs, -⟩ := id h
    obtain ⟨node, form, hn, hf⟩ := exists_of_valueShape hs
    rw [isAggregate_iff hn hf, uses_iff hn]
    exact (descends_iff hn hf).1 h
  · rintro ⟨⟨node, hn, form, hf, ha⟩, hu⟩
    exact (descends_iff hn hf).2 ⟨ha, (uses_iff hn).1 hu⟩

theorem acyclic_of_operands_older
    (h : ∀ i < g.size, ∀ node ∈ g.node? ⟨i⟩, ∀ w ∈ node.content.operands, w.index < i) (v : ValueId) :
    g.view.Acyclic v := by
  refine acyclic_of_older fun u _ w hd => ?_
  obtain ⟨node, hn, hw⟩ := (descends_iff_uses.1 hd).2
  exact h u.index (node?_eq_some_lt hn) node hn w hw

/-- What holds wherever the descent reaches holds of the value and, at an aggregate, wherever it reaches from the
operands. -/
theorem forall_reaches_iff {p : ValueId → Prop} (hn : g.node? v = some node)
    (hf : g.types.form? node.type = some form) : (∀ x, g.view.Reaches v x → p x) ↔
      p v ∧ (form.shape.isAggregate = true → ∀ w ∈ node.content.operands, ∀ x, g.view.Reaches w x → p x) := by
  constructor
  · intro h
    refine ⟨h v .refl, fun ha w hw x hx => h x ?_⟩
    exact Relation.ReflTransGen.head ((descends_iff hn hf).2 ⟨ha, hw⟩) hx
  · rintro ⟨hv, hops⟩ x hx
    rcases hx.cases_head with rfl | ⟨w, hd, hx⟩
    · exact hv
    · obtain ⟨ha, hw⟩ := (descends_iff hn hf).1 hd
      exact hops ha w hw x hx

/-! ## Ways down to an undefined value -/

/-- A way down from a value to an undefined one: each value on it but the last is an aggregate that has the next
one among its operands. -/
structure LeadsToUndef (g : Graph) (v : ValueId) (path : List ValueId) : Prop where
  first : path.head? = some v
  steps : path.IsChain fun x y => g.IsAggregate x ∧ g.Uses x y
  last : ∃ u ∈ path.getLast?, g.IsUndef u

theorem exists_leadsToUndef_iff :
    (∃ path, g.LeadsToUndef v path) ↔ ∃ u, g.view.Reaches v u ∧ g.IsUndef u := by
  constructor
  · rintro ⟨path, hfirst, hsteps, u, hlast, hu⟩
    obtain ⟨rest, rfl⟩ := List.head?_eq_some_iff.1 hfirst
    have hchain : (v :: rest).IsChain g.view.Descends := hsteps.imp fun _ _ h => descends_iff_uses.2 h
    rw [List.getLast?_eq_some_getLast (List.cons_ne_nil v rest)] at hlast
    exact ⟨u, List.relationReflTransGen_of_exists_isChain_cons rest hchain (Option.some.inj hlast), hu⟩
  · rintro ⟨u, hr, hu⟩
    obtain ⟨rest, hchain, hlast⟩ := List.exists_isChain_cons_of_relationReflTransGen hr
    refine ⟨v :: rest, rfl, hchain.imp fun _ _ h => descends_iff_uses.1 h, u, ?_, hu⟩
    rw [Option.mem_def, List.getLast?_eq_some_getLast (List.cons_ne_nil v rest), hlast]

theorem WF.allDefined_eq_true_iff (hw : g.WF) (hv : g.HasValue v) (h : g.view.Acyclic v) :
    g.view.allDefined v = .ok true ↔ ∀ x, g.view.Reaches v x → ¬ g.IsUndef x := by
  refine hw.descent_induction
    (motive := fun v => g.view.allDefined v = .ok true ↔ ∀ x, g.view.Reaches v x → ¬ g.IsUndef x)
    (fun v node form hn hf ih => ?_) hv h
  rw [allDefined_of_node hn hf, forall_reaches_iff hn hf, isUndef_iff hn]
  by_cases hk : node.content.kind = .undef
  · rw [if_pos hk]
    exact ⟨by rintro ⟨⟩, fun h => absurd hk h.1⟩
  rw [if_neg hk]
  by_cases ha : form.shape.isAggregate = true
  · rw [if_pos ha, allM_eq_true_iff]
    constructor
    · intro hops
      exact ⟨hk, fun _ w hw => (ih ha w hw).1 (hops w (Array.mem_toList_iff.2 hw))⟩
    · rintro ⟨-, hops⟩ w hw
      rw [Array.mem_toList_iff] at hw
      exact (ih ha w hw).2 (hops ha w hw)
  · rw [if_neg ha]
    exact ⟨fun _ => ⟨hk, fun h => absurd h ha⟩, fun _ => rfl⟩

/-- Where the descent is acyclic a value is all defined just when no way down from it ends at an undefined value. -/
theorem allDefined_iff_no_path (h : g.Reachable) (hv : g.HasValue v) (ha : g.view.Acyclic v) :
    ∃ b, g.view.allDefined v = .ok b ∧ (b = true ↔ ¬ ∃ path, g.LeadsToUndef v path) := by
  obtain ⟨b, -, hb, -⟩ := h.wf.walksExclusive hv ha
  have hiff := h.wf.allDefined_eq_true_iff hv ha
  rw [hb, Except.ok.injEq] at hiff
  refine ⟨b, hb, hiff.trans ?_⟩
  rw [exists_leadsToUndef_iff]
  push Not
  rfl

/-- A phi that joins a sum of undefined lanes, and a struct of the phi and an empty array. -/
def layered : Graph :=
  [.intType 8, .vectorType ⟨0⟩ 2, .arrayType ⟨0⟩ 0, .structType [⟨1⟩, ⟨2⟩], .undef ⟨0⟩, .constSplat ⟨1⟩ ⟨0⟩,
    .instruction ⟨1⟩ .add [⟨1⟩, ⟨1⟩], .phi ⟨1⟩, .setPhiIncoming ⟨3⟩ [⟨2⟩, ⟨1⟩], .constAggregate ⟨2⟩ [],
    .constExpr ⟨3⟩ .insertValue [⟨3⟩, ⟨4⟩]].foldl after empty

theorem layered_acyclic (v : ValueId) : layered.view.Acyclic v :=
  acyclic_of_operands_older (by decide +kernel) v

/-- The way down from the phi goes through the sum and its lanes. -/
theorem allDefined_iff_no_path_layered : layered.Reachable ∧ layered.HasValue ⟨3⟩ ∧
    layered.view.Acyclic ⟨3⟩ ∧ layered.LeadsToUndef ⟨3⟩ [⟨3⟩, ⟨2⟩, ⟨1⟩, ⟨0⟩] ∧
    layered.view.allDefined ⟨3⟩ = .ok false := by
  have hr : layered.Reachable := Reachable.empty.foldl_after _
  have hv : layered.HasValue ⟨3⟩ := exists_node? (by decide +kernel)
  have hpath : layered.LeadsToUndef ⟨3⟩ [⟨3⟩, ⟨2⟩, ⟨1⟩, ⟨0⟩] :=
    ⟨rfl, by decide +kernel, by decide +kernel⟩
  obtain ⟨b, hb, hiff⟩ := allDefined_iff_no_path hr hv (layered_acyclic ⟨3⟩)
  refine ⟨hr, hv, layered_acyclic ⟨3⟩, hpath, ?_⟩
  rw [hb, Bool.eq_false_iff.2 fun ht => hiff.1 ht ⟨_, hpath⟩]

/-! ## Leaves -/

/-- A step from an aggregate that is not itself undefined to one of its operands. -/
def Opens (g : Graph) (v w : ValueId) : Prop :=
  g.IsAggregate v ∧ ¬ g.IsUndef v ∧ g.Uses v w

/-- Nothing is opened at the value: it is undefined, or no aggregate, or it has no operands. -/
def IsClosed (g : Graph) (v : ValueId) : Prop :=
  g.IsUndef v ∨ ¬ g.IsAggregate v ∨ ∀ w, ¬ g.Uses v w

/-- A leaf of a value: it is come to by opening one aggregate after another, and nothing is opened at it. -/
structure IsLeaf (g : Graph) (v x : ValueId) : Prop where
  below : Relation.ReflTransGen g.Opens v x
  closed : g.IsClosed x

theorem IsUndef.not_uses (h : g.IsUndef v) : ¬ g.Uses v w := by
  obtain ⟨node, hn, hk⟩ := h
  rw [uses_iff hn]
  cases hc : node.content with
  | undef => exact fun hw => by cases hw.val
  | _ => rw [hc] at hk; cases hk

theorem opens_eq_descends : g.Opens = g.view.Descends := by
  funext v w
  rw [Opens, descends_iff_uses, eq_iff_iff]
  constructor
  · rintro ⟨ha, -, hu⟩
    exact ⟨ha, hu⟩
  · rintro ⟨ha, hu⟩
    exact ⟨ha, fun h => h.not_uses hu, hu⟩

theorem isLeaf_iff : g.IsLeaf v x ↔ g.view.Reaches v x ∧ g.IsClosed x := by
  rw [View.Reaches, ← opens_eq_descends]
  exact ⟨fun h => ⟨h.below, h.closed⟩, fun h => ⟨h.1, h.2⟩⟩

theorem WF.exists_leaf (hw : g.WF) (hv : g.HasValue v) (h : g.view.Acyclic v) : ∃ x, g.IsLeaf v x := by
  refine hw.descent_induction (motive := fun v => ∃ x, g.IsLeaf v x) (fun v node form hn hf ih => ?_) hv h
  by_cases hc : g.IsClosed v
  · exact ⟨v, .refl, hc⟩
  -- an aggregate that is not closed has an operand, and a leaf of the operand is a leaf of the aggregate
  rw [IsClosed, isAggregate_iff hn hf] at hc
  push Not at hc
  obtain ⟨hu, ha, w, hw⟩ := hc
  obtain ⟨x, hx⟩ := ih ha w ((uses_iff hn).1 hw)
  exact ⟨x, .head ⟨(isAggregate_iff hn hf).2 ha, hu, hw⟩ hx.below, hx.closed⟩

theorem WF.allUndefinedDeep_eq_true_iff (hw : g.WF) (hv : g.HasValue v) (h : g.view.Acyclic v) :
    g.view.allUndefinedDeep v = .ok true ↔ ∀ x, g.view.Reaches v x → g.IsClosed x → g.IsUndef x := by
  refine hw.descent_induction
    (motive := fun v => g.view.allUndefinedDeep v = .ok true ↔
      ∀ x, g.view.Reaches v x → g.IsClosed x → g.IsUndef x)
    (fun v node form hn hf ih => ?_) hv h
  rw [allUndefinedDeep_of_node hn hf, forall_reaches_iff hn hf, isUndef_iff hn]
  by_cases hk : node.content.kind = .undef
  · rw [if_pos hk]
    refine ⟨fun _ => ⟨fun _ => hk, fun _ w hw => ?_⟩, fun _ => rfl⟩
    exact absurd ((uses_iff hn).2 hw) (IsUndef.not_uses ⟨node, hn, hk⟩)
  rw [if_neg hk]
  by_cases ha : form.shape.isAggregate = true
  · rw [if_pos ha]
    by_cases hs : node.content.operands.size = 0
    · -- an aggregate without operands is a leaf
      have hnone : ∀ w, ¬ g.Uses v w := by
        intro w hw
        rw [uses_iff hn, Array.size_eq_zero_iff.1 hs] at hw
        cases hw.val
      rw [if_pos hs]
      exact ⟨by rintro ⟨⟩, fun h => absurd (h.1 (.inr (.inr hnone))) hk⟩
    · have hopen : ¬ g.IsClosed v := by
        have hpos : 0 < node.content.operands.size := Nat.pos_of_ne_zero hs
        rw [IsClosed, isUndef_iff hn, isAggregate_iff hn hf]
        rintro (hu | hn' | hnone)
        · exact hk hu
        · exact hn' ha
        · exact hnone _ ((uses_iff hn).2 (Array.getElem_mem hpos))
      rw [if_neg hs, allM_eq_true_iff]
      constructor
      · intro hops
        exact ⟨fun hc => absurd hc hopen, fun _ w hw => (ih ha w hw).1 (hops w (Array.mem_toList_iff.2 hw))⟩
      · rintro ⟨-, hops⟩ w hw
        rw [Array.mem_toList_iff] at hw
        exact (ih ha w hw).2 (hops ha w hw)
  · -- a scalar that is not undefined is a leaf
    have hc : g.IsClosed v := .inr (.inl (by rwa [isAggregate_iff hn hf]))
    rw [if_neg ha]
    exact ⟨by rintro ⟨⟩, fun h => absurd (h.1 hc) hk⟩

/-- Where the descent is acyclic a value has a leaf, and is all undefined in the deep sense just when every leaf is
undefined. -/
theorem allUndefinedDeep_iff_leaves (h : g.Reachable) (hv : g.HasValue v) (ha : g.view.Acyclic v) :
    (∃ x, g.IsLeaf v x) ∧
    (∃ b, g.view.allUndefinedDeep v = .ok b ∧ (b = true ↔ ∀ x, g.IsLeaf v x → g.IsUndef x)) ∧
    ∀ x, Relation.ReflTransGen g.Opens v x → g.IsAggregate x → ¬ g.IsUndef x → (∀ w, ¬ g.Uses x w) →
      g.view.allUndefinedDeep v = .ok false := by
  obtain ⟨-, b, -, hb, -⟩ := h.wf.walksExclusive hv ha
  have hiff : b = true ↔ ∀ x, g.IsLeaf v x → g.IsUndef x := by
    have hiff := h.wf.allUndefinedDeep_eq_true_iff hv ha
    rw [hb, Except.ok.injEq] at hiff
    simpa only [isLeaf_iff, and_imp] using hiff
  refine ⟨h.wf.exists_leaf hv ha, ⟨b, hb, hiff⟩, fun x hx _ hu hnone => ?_⟩
  have hfalse : b ≠ true := fun ht => hu (hiff.1 ht x ⟨hx, .inr (.inr hnone)⟩)
  rw [hb, Bool.eq_false_iff.2 hfalse]

/-- The only leaf below the phi is undefined; below the struct there is the empty array too. -/
theorem allUndefinedDeep_iff_leaves_layered : layered.Reachable ∧ layered.HasValue ⟨3⟩ ∧ layered.HasValue ⟨5⟩ ∧
    layered.view.Acyclic ⟨3⟩ ∧ layered.view.Acyclic ⟨5⟩ ∧ layered.view.allUndefinedDeep ⟨3⟩ = .ok true ∧
    (∀ x, layered.IsLeaf ⟨3⟩ x → layered.IsUndef x) ∧ layered.view.allUndefinedDeep ⟨5⟩ = .ok false := by
  have hr : layered.Reachable := Reachable.empty.foldl_after _
  have hv : layered.HasValue ⟨3⟩ := exists_node? (by decide +kernel)
  have hs : layered.HasValue ⟨5⟩ := exists_node? (by decide +kernel)
  have ht : layered.view.allUndefinedDeep ⟨3⟩ = .ok true := by decide +kernel
  obtain ⟨-, ⟨b, hb, hiff⟩, -⟩ := allUndefinedDeep_iff_leaves hr hv (layered_acyclic ⟨3⟩)
  obtain ⟨-, -, hempty⟩ := allUndefinedDeep_iff_leaves hr hs (layered_acyclic ⟨5⟩)
  refine ⟨hr, hv, hs, layered_acyclic ⟨3⟩, layered_acyclic ⟨5⟩, ht, ?_, ?_⟩
  · exact hiff.1 (Except.ok.inj (hb.symm.trans ht))
  · have hopens : layered.Opens ⟨5⟩ ⟨4⟩ := by unfold Opens; decide +kernel
    refine hempty ⟨4⟩ (.single hopens) (by decide +kernel) (by decide +kernel) fun w hw => ?_
    obtain ⟨node, hn, hw⟩ := hw
    have hnone : ∀ node ∈ layered.node? ⟨4⟩, node.content.operands = #[] := by decide +kernel
    rw [hnone node hn] at hw
    cases hw.val

end Lanewise.Graph
