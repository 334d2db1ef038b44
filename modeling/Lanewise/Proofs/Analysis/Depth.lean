/-
How deep the walks go. A walk along which a rank falls ends within one more level than the rank
(`endsWithin_of_rank`). In a graph made by building the rank of a value is its position, since the operands of all
but phis are older; so both walks end where the descent reaches no phi of aggregate type (`walks_end`).
-/
import Lanewise.Proofs.Analysis.Reach
import Lanewise.Proofs.View.Stability

namespace Lanewise

/-! ## Walks of falling rank -/

theorem Scan.visits_of_holds {V : Type} {s : Scan V} {test : V → Except Fault Bool} {P : V → Prop}
    (h : ∀ v, s.Holds v → P v) : s.Visits test P := by
  induction s with
  | done => trivial
  | fault f => trivial
  | next v rest ih => exact ⟨h v .here, fun _ => ih () fun w hw => h w (.there hw)⟩

theorem endsWithin_of_rank {V : Type} {visit : V → Except Fault (Visit V)} {P : V → Prop} (rank : V → Nat)
    (h : ∀ v s w, P v → visit v = .ok (.descend s) → s.Holds w → P w ∧ rank w < rank v) {v : V} {d : Nat}
    (hv : P v) (hd : rank v < d) : EndsWithin visit d v := by
  induction d generalizing v with
  | zero => exact absurd hd (Nat.not_lt_zero _)
  | succ d ih =>
    intro s hs
    refine Scan.visits_of_holds fun w hw => ?_
    obtain ⟨hP, hlt⟩ := h v s w hv hs hw
    exact ih hP (by omega)

namespace View

variable {V T : Type} {view : View V T} {v w : V} {s : Scan V}

theorem aggregate_of_visit {undefined : Bool} {aggregate : V → Except Fault (Visit V)}
    (h : view.visit undefined aggregate v = .ok (.descend s)) :
    ∃ shape, view.valueShape v = .ok shape ∧ shape.isAggregate = true ∧ aggregate v = .ok (.descend s) := by
  unfold visit at h
  rcases hu : view.isUndef v with f | _ | _
  · rw [hu] at h; cases h
  · rw [hu] at h
    cases hs : view.valueShape v with
    | error f => rw [hs] at h; cases h
    | ok shape =>
      rw [hs] at h
      have h : (if shape.isAggregate = true then aggregate v else .ok (.settled !undefined)) =
        .ok (.descend s) := h
      by_cases ha : shape.isAggregate = true
      · rw [if_pos ha] at h
        exact ⟨shape, rfl, ha, h⟩
      · rw [if_neg ha] at h
        cases h
  · rw [hu] at h; cases h

theorem operands_of_allOperands (h : view.allOperands v = .ok (.descend s)) : view.operands v = .ok s := by
  unfold allOperands at h
  cases ho : view.operands v with
  | error f => rw [ho] at h; cases h
  | ok s' => rw [ho] at h; cases h; rfl

theorem operands_of_someOperands (h : view.someOperands v = .ok (.descend s)) : view.operands v = .ok s := by
  unfold someOperands at h
  rcases hc : view.operandCount v with f | _ | n
  · rw [hc] at h; cases h
  · rw [hc] at h; cases h
  · rw [hc] at h
    exact operands_of_allOperands h

theorem descends_of_visitDefined (h : view.visitDefined v = .ok (.descend s)) (hw : s.Holds w) :
    view.Descends v w := by
  obtain ⟨shape, hs, ha, ho⟩ := aggregate_of_visit h
  exact ⟨shape, s, hs, ha, operands_of_allOperands ho, hw⟩

theorem descends_of_visitUndefined (h : view.visitUndefined v = .ok (.descend s)) (hw : s.Holds w) :
    view.Descends v w := by
  obtain ⟨shape, hs, ha, ho⟩ := aggregate_of_visit h
  exact ⟨shape, s, hs, ha, operands_of_someOperands ho, hw⟩

end View

namespace Graph

variable {g g' : Graph} {v w x : ValueId}

/-! ## Graphs that extend each other -/

section
variable (he : g.Extends g')
include he

theorem Extends.isUndef_iff (hv : g.HasValue v) : g'.IsUndef v ↔ g.IsUndef v := by
  obtain ⟨node, hn⟩ := hv
  obtain ⟨node', hn', -, hc⟩ := he.node v node hn
  rw [Graph.isUndef_iff hn, Graph.isUndef_iff hn', hc.kind_eq]

theorem Extends.isAggregate_iff (hw : g.WF) (hv : g.HasValue v) : g'.IsAggregate v ↔ g.IsAggregate v := by
  obtain ⟨node, hn⟩ := hv
  obtain ⟨node', hn', ht, -⟩ := he.node v node hn
  obtain ⟨form, hf⟩ := hw.exists_form hn
  have hf' : g'.types.form? node'.type = some form := ht ▸ he.form _ _ hf
  rw [Graph.isAggregate_iff hn hf, Graph.isAggregate_iff hn' hf']

theorem Extends.isPhi (hv : g.HasValue v) (hp : g'.IsPhi v) : g.IsPhi v := by
  obtain ⟨node, hn⟩ := hv
  obtain ⟨node', hn', -, hc⟩ := he.node v node hn
  obtain ⟨m, hm, hp⟩ := hp
  cases hn'.symm.trans hm
  exact ⟨node, hn, hc.apply_eq Content.opcode?_withOperands ▸ hp⟩

theorem Extends.uses_iff (hv : g.HasValue v) (hp : ¬ g.IsPhi v) : g'.Uses v w ↔ g.Uses v w := by
  obtain ⟨node, hn⟩ := hv
  obtain ⟨node', hn', -, hc⟩ := he.node v node hn
  rw [Graph.uses_iff hn, Graph.uses_iff hn', hc.eq_of_ne fun hp' => hp ⟨node, hn, hp'⟩]

end

/-! ## Descents without phis -/

/-- The descent from the value reaches no phi of aggregate type. -/
def PhiFree (g : Graph) (v : ValueId) : Prop :=
  ∀ x, g.view.Reaches v x → g.IsAggregate x → ¬ g.IsPhi x

theorem PhiFree.older (h : g.PhiFree v) (ho : g.OperandsOlder) (hr : g.view.Reaches v x)
    (hd : g.view.Descends x w) : w.index < x.index := by
  obtain ⟨ha, hu⟩ := descends_iff_uses.1 hd
  exact ho.lt_of_uses hu (h x hr ha)

theorem Extends.reaches_iff (he : g.Extends g') (hw : g.WF) (hv : g.HasValue v) (h : g.PhiFree v) :
    g'.view.Reaches v x ↔ g.view.Reaches v x := by
  have hstep : ∀ u w, g.view.Reaches v u → (g'.view.Descends u w ↔ g.view.Descends u w) := by
    intro u w hu
    have hvalue : g.HasValue u := hw.hasValue_of_reaches hv hu
    rw [descends_iff_uses, descends_iff_uses, he.isAggregate_iff hw hvalue]
    exact and_congr_right fun ha => he.uses_iff hvalue (h u hu ha)
  constructor
  · intro hr
    induction hr with
    | refl => exact .refl
    | tail _ hd ih => exact ih.tail ((hstep _ _ ih).1 hd)
  · intro hr
    induction hr with
    | refl => exact .refl
    | tail hu hd ih => exact ih.tail ((hstep _ _ hu).2 hd)

theorem Extends.phiFree (he : g.Extends g') (hw : g.WF) (hv : g.HasValue v) (h : g.PhiFree v) :
    g'.PhiFree v := by
  intro x hr ha hp
  have hr : g.view.Reaches v x := (he.reaches_iff hw hv h).1 hr
  have hvalue : g.HasValue x := hw.hasValue_of_reaches hv hr
  exact h x hr ((he.isAggregate_iff hw hvalue).1 ha) (he.isPhi hvalue hp)

/-! ## The walks end -/

/-- Both walks from a value end, within as many levels as there are values up to this one. -/
structure WalksEnd (g : Graph) (v : ValueId) : Prop where
  descent : Acc (fun w u => g.view.Descends u w) v
  defined : ∃ b, g.view.allDefined v = .ok b ∧
    ∀ depth, v.index < depth → g.view.allDefinedWithin depth v = .ok b
  undefined : ∃ b, g.view.allUndefinedDeep v = .ok b ∧
    ∀ depth, v.index < depth → g.view.allUndefinedDeepWithin depth v = .ok b

theorem PhiFree.acyclic (h : g.PhiFree v) (ho : g.OperandsOlder) : g.view.Acyclic v :=
  acyclic_of_older fun _ hu _ hd => h.older ho hu hd

/-- A walk that hands over to what is descended to takes no more levels than there are values up to its start. -/
theorem PhiFree.walk_eq (h : g.PhiFree v) (ho : g.OperandsOlder) {visit : ValueId → Except Fault (Visit ValueId)}
    (hvisit : ∀ u s w, visit u = .ok (.descend s) → s.Holds w → g.view.Descends u w) {d d' : Nat}
    (hd : v.index < d) (hd' : v.index < d') : walk visit d v = walk visit d' v := by
  have hends : EndsWithin visit (v.index + 1) v := by
    refine endsWithin_of_rank (P := g.view.Reaches v) ValueId.index ?_ .refl (Nat.lt_succ_self _)
    intro u s w hu hs hw
    have hdescends := hvisit u s w hs hw
    exact ⟨hu.tail hdescends, h.older ho hu hdescends⟩
  exact (hends.le hd).1.trans (hends.le hd').1.symm

theorem WF.walksEnd (hw : g.WF) (ho : g.OperandsOlder) (hv : g.HasValue v) (h : g.PhiFree v) : g.WalksEnd v := by
  have hacyclic : g.view.Acyclic v := h.acyclic ho
  obtain ⟨defined, undefined, hdefined, hundefined, -⟩ := hw.walksExclusive hv hacyclic
  have hlt : v.index < v.index + g.view.values.length + 1 := by omega
  refine ⟨hw.acc_of_acyclic hv hacyclic, ⟨defined, hdefined, fun depth hd => ?_⟩,
    undefined, hundefined, fun depth hd => ?_⟩
  · rw [View.allDefinedWithin_eq_walk, h.walk_eq ho (fun _ _ _ => View.descends_of_visitDefined) hd hlt,
      ← View.allDefined_eq_walk (by omega), hdefined]
  · rw [View.allUndefinedDeepWithin_eq_walk, h.walk_eq ho (fun _ _ _ => View.descends_of_visitUndefined) hd hlt,
      ← View.allUndefinedDeep_eq_walk (by omega), hundefined]

theorem Extends.isClosed_iff (he : g.Extends g') (hw : g.WF) (hv : g.HasValue x)
    (hp : g.IsAggregate x → ¬ g.IsPhi x) : g'.IsClosed x ↔ g.IsClosed x := by
  rw [IsClosed, IsClosed, he.isUndef_iff hv, he.isAggregate_iff hw hv]
  refine or_congr_right ?_
  by_cases ha : g.IsAggregate x
  · exact or_congr_right (forall_congr' fun w => not_congr (he.uses_iff hv (hp ha)))
  · exact ⟨fun _ => .inl ha, fun _ => .inl ha⟩

theorem eq_of_answers {a b : Except Fault Bool} (ha : ∃ p, a = .ok p) (hb : ∃ q, b = .ok q)
    (h : a = .ok true ↔ b = .ok true) : a = b := by
  obtain ⟨p, rfl⟩ := ha
  obtain ⟨q, rfl⟩ := hb
  rw [Except.ok.injEq, Except.ok.injEq] at h
  rw [Bool.eq_iff_iff.2 h]

theorem Extends.walks_eq_of_phiFree (he : g.Extends g') (hw : g.WF) (hw' : g'.WF) (ho : g.OperandsOlder)
    (ho' : g'.OperandsOlder) (hv : g.HasValue v) (h : g.PhiFree v) :
    g'.view.allDefined v = g.view.allDefined v ∧ g'.view.allUndefinedDeep v = g.view.allUndefinedDeep v := by
  have hv' : g'.HasValue v := he.hasValue hv
  have h' : g'.PhiFree v := he.phiFree hw hv h
  obtain ⟨-, ⟨b, hb, -⟩, c, hc, -⟩ := hw.walksEnd ho hv h
  obtain ⟨-, ⟨b', hb', -⟩, c', hc', -⟩ := hw'.walksEnd ho' hv' h'
  -- both answers are told by what is reached, which is the same
  constructor
  · refine eq_of_answers ⟨b', hb'⟩ ⟨b, hb⟩ ?_
    rw [hw.allDefined_eq_true_iff hv (h.acyclic ho), hw'.allDefined_eq_true_iff hv' (h'.acyclic ho')]
    refine forall_congr' fun x => ?_
    rw [he.reaches_iff hw hv h]
    exact forall_congr' fun hx => by rw [he.isUndef_iff (hw.hasValue_of_reaches hv hx)]
  · refine eq_of_answers ⟨c', hc'⟩ ⟨c, hc⟩ ?_
    rw [hw.allUndefinedDeep_eq_true_iff hv (h.acyclic ho), hw'.allUndefinedDeep_eq_true_iff hv' (h'.acyclic ho')]
    refine forall_congr' fun x => ?_
    rw [he.reaches_iff hw hv h]
    refine forall_congr' fun hx => ?_
    have hvalue : g.HasValue x := hw.hasValue_of_reaches hv hx
    rw [he.isClosed_iff hw hvalue (h x hx), he.isUndef_iff hvalue]

/-- Where the descent reaches no phi of aggregate type both walks end, and they go on to end, with the answers they
had, however building goes on. -/
theorem walks_end (h : g.Reachable) (hv : g.HasValue v) (hp : g.PhiFree v) :
    g.WalksEnd v ∧ ∀ commands : List Command,
      (commands.foldl Graph.after g).WalksEnd v ∧
      (commands.foldl Graph.after g).view.allDefined v = g.view.allDefined v ∧
      (commands.foldl Graph.after g).view.allUndefinedDeep v = g.view.allUndefinedDeep v := by
  refine ⟨h.wf.walksEnd h.operandsOlder hv hp, fun commands => ?_⟩
  have he : g.Extends (commands.foldl Graph.after g) := foldl_after_extends g commands
  have hr : (commands.foldl Graph.after g).Reachable := h.foldl_after commands
  refine ⟨?_, he.walks_eq_of_phiFree h.wf hr.wf h.operandsOlder hr.operandsOlder hv hp⟩
  exact hr.wf.walksEnd hr.operandsOlder (he.hasValue hv) (he.phiFree h.wf hv hp)

/-- A vector with an inserted element that is a scalar phi around a cycle of its own. -/
def looped : Graph :=
  [.intType 8, .vectorType ⟨0⟩ 2, .phi ⟨0⟩, .setPhiIncoming ⟨0⟩ [⟨0⟩], .constInt ⟨0⟩ 1, .constSplat ⟨1⟩ ⟨1⟩,
    .instruction ⟨1⟩ .insertElement [⟨2⟩, ⟨0⟩]].foldl after empty

/-- The walks from the vector end, also when the phi takes the element after it and itself. -/
theorem walks_end_looped : looped.Reachable ∧ looped.HasValue ⟨3⟩ ∧ looped.Uses ⟨0⟩ ⟨0⟩ ∧ looped.PhiFree ⟨3⟩ ∧
    looped.view.allDefined ⟨3⟩ = .ok true ∧
    (looped.after (.setPhiIncoming ⟨0⟩ [⟨1⟩, ⟨0⟩])).WalksEnd ⟨3⟩ ∧
    (looped.after (.setPhiIncoming ⟨0⟩ [⟨1⟩, ⟨0⟩])).view.allDefined ⟨3⟩ = .ok true := by
  have hr : looped.Reachable := Reachable.empty.foldl_after _
  have hv : looped.HasValue ⟨3⟩ := exists_node? (by decide +kernel)
  have hscalar : ∀ node ∈ looped.nodes.toList, node.content.opcode? = some .phi → node.type = ⟨0⟩ := by
    decide +kernel
  have hform : looped.types.form? ⟨0⟩ = some (.int 8) := by decide +kernel
  have hp : looped.PhiFree ⟨3⟩ := by
    rintro x - ha ⟨node, hn, hphi⟩
    have ht : node.type = ⟨0⟩ := hscalar node (Array.mem_toList_iff.2 (Array.mem_of_getElem? hn)) hphi
    rw [isAggregate_iff hn (ht ▸ hform)] at ha
    cases ha
  have hd : looped.view.allDefined ⟨3⟩ = .ok true := by decide +kernel
  obtain ⟨-, hlater⟩ := walks_end hr hv hp
  obtain ⟨hends, hsame, -⟩ := hlater [.setPhiIncoming ⟨0⟩ [⟨1⟩, ⟨0⟩]]
  exact ⟨hr, hv, by decide +kernel, hp, hd, hends, hsame.trans hd⟩

end Graph

end Lanewise
