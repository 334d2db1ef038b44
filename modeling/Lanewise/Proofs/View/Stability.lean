/-
Building on leaves existing values and types as they are: a value may be given another name and a phi other
incoming values, and nothing else about it changes. So every inquiry about them is answered as before, with the same
diagnostics and the same faults, unless it walks and the descent reaches a phi whose incoming values are replaced.
-/
import Lanewise.Proofs.Analysis.Alike
import Lanewise.Proofs.Analysis.Definedness
import Lanewise.Proofs.Graph.Soundness
import Lanewise.Proofs.Graph.Types
import Lanewise.Proofs.View.Graph

namespace Lanewise

/-! ## Contents -/

namespace Content

variable {c c' : Content}

theorem intLiteral?_withOperands (vs : Array ValueId) (c : Content) :
    (c.withOperands vs).intLiteral? = c.intLiteral? := by
  cases c <;> rfl

theorem floatLiteral?_withOperands (vs : Array ValueId) (c : Content) :
    (c.withOperands vs).floatLiteral? = c.floatLiteral? := by
  cases c <;> rfl

theorem intrinsic?_withOperands (vs : Array ValueId) (c : Content) :
    (c.withOperands vs).intrinsic? = c.intrinsic? := by
  cases c <;> rfl

theorem payload_withOperands (vs : Array ValueId) (c : Content) : (c.withOperands vs).payload = c.payload := by
  cases c <;> rfl

theorem Revises.apply_eq {α : Type} {f : Content → α} (hf : ∀ vs c, f (c.withOperands vs) = f c)
    (h : c.Revises c') : f c' = f c := by
  rcases h with rfl | ⟨-, vs, rfl⟩
  · rfl
  · exact hf vs c

theorem Revises.eq_of_ne (h : c.Revises c') (hp : c.opcode? ≠ some .phi) : c' = c := by
  rcases h with rfl | ⟨h, -⟩
  · rfl
  · exact absurd h hp

end Content

namespace Graph

variable {g g' : Graph} {c : Command} {r : Reply} {v w : ValueId} {node node' : Node} {t : TypeId}

/-! ## Graphs that extend each other -/

theorem WF.operand_alike (hw : g.WF) (hn : g.node? v = some node) (i : Nat) :
    Option.Rel (fun v w => v = w ∧ g.HasValue v) node.content.operands[i]? node.content.operands[i]? := by
  cases ho : node.content.operands[i]? with
  | none => exact .none
  | some w => exact .some ⟨rfl, (hw.fits v node hn).hasValue w (Array.mem_of_getElem? ho)⟩

/-- What is not an operand is read alike in every graph built from `g`, and so are the elements of aggregate
constants and the sources of casts, which are no phis. -/
theorem Extends.alike (h : g.Extends g') (hw : g.WF) :
    g.view.Alike g'.view fun v w => v = w ∧ g.HasValue v where
  kind := by
    rintro v _ ⟨rfl, node, hn⟩
    obtain ⟨node', hn', -, hc⟩ := h.node v node hn
    rw [(reads hn).kind, (reads hn').kind, hc.kind_eq]
  shape := by
    rintro v _ ⟨rfl, node, hn⟩
    obtain ⟨node', hn', ht, -⟩ := h.node v node hn
    obtain ⟨form, hf⟩ := hw.exists_form hn
    have hf' : g'.types.form? node'.type = some form := by rw [ht]; exact h.form _ _ hf
    rw [valueShape_eq hn hf, valueShape_eq hn' hf']
    exact .ok rfl
  intLiteral := by
    rintro v _ ⟨rfl, node, hn⟩
    obtain ⟨node', hn', -, hc⟩ := h.node v node hn
    rw [(reads hn).intLiteral, (reads hn').intLiteral, hc.apply_eq Content.intLiteral?_withOperands]
  floatLiteral := by
    rintro v _ ⟨rfl, node, hn⟩
    obtain ⟨node', hn', -, hc⟩ := h.node v node hn
    rw [(reads hn).floatLiteral, (reads hn').floatLiteral, hc.apply_eq Content.floatLiteral?_withOperands]
  opcode := by
    rintro v _ ⟨rfl, node, hn⟩
    obtain ⟨node', hn', -, hc⟩ := h.node v node hn
    rw [(reads hn).opcode, (reads hn').opcode, hc.apply_eq Content.opcode?_withOperands]
  intrinsic := by
    rintro v _ ⟨rfl, node, hn⟩
    obtain ⟨node', hn', -, hc⟩ := h.node v node hn
    rw [(reads hn).intrinsic, (reads hn').intrinsic, hc.apply_eq Content.intrinsic?_withOperands]
  aggregateElement := by
    rintro v _ i ⟨rfl, node, hn⟩
    obtain ⟨node', hn', -, hc⟩ := h.node v node hn
    rw [(reads hn).aggregateElement, (reads hn').aggregateElement, hc.kind_eq]
    by_cases hk : node.content.kind = .constantAggregate
    · have hp : node.content.opcode? ≠ some .phi := by
        intro hp
        rcases Content.kind_of_opcode?_eq_phi hp with hk' | hk'
        · cases hk.symm.trans hk'
        · cases hk.symm.trans hk'
      rw [if_pos hk, if_pos hk, hc.eq_of_ne hp]
      exact .ok (hw.operand_alike hn i)
    · rw [if_neg hk, if_neg hk]
      exact .ok .none
  castSource := by
    rintro v _ opcode ⟨rfl, node, hn⟩ ho hcast
    obtain ⟨node', hn', -, hc⟩ := h.node v node hn
    rw [(reads hn).opcode, Except.ok.injEq] at ho
    have hp : node.content.opcode? ≠ some .phi := by
      rw [ho]
      rintro ⟨⟩
      cases hcast
    rw [(reads hn).operand, (reads hn').operand, hc.eq_of_ne hp]
    exact .ok (hw.operand_alike hn 0)

theorem Extends.descentAlike (h : g.Extends g') (hw : g.WF) (hv : g.HasValue v)
    (hops : ∀ u node node', g.view.Reaches v u → g.node? u = some node → g'.node? u = some node' →
      node'.content.operands = node.content.operands) :
    View.DescentAlike g.view g'.view fun u w => u = w ∧ g.view.Reaches v u := by
  have hvalue : ∀ u, g.view.Reaches v u → g.HasValue u := fun u hu => hw.hasValue_of_reaches hv hu
  refine (h.alike hw).descentAlike ?_ ?_ ?_
  · rintro u _ ⟨rfl, hu⟩
    exact ⟨rfl, hvalue u hu⟩
  · rintro u _ ⟨rfl, hu⟩
    obtain ⟨node, hn⟩ := hvalue u hu
    obtain ⟨node', hn', -⟩ := h.node u node hn
    rw [(reads hn).operandCount, (reads hn').operandCount, hops u node node' hu hn hn']
  · rintro u _ shape ⟨rfl, hu⟩ hs ha
    obtain ⟨node, hn⟩ := hvalue u hu
    obtain ⟨node', hn', -⟩ := h.node u node hn
    obtain ⟨form, hf⟩ := hw.exists_form hn
    cases (valueShape_eq hn hf).symm.trans hs
    rw [(reads hn).operands, (reads hn').operands, hops u node node' hu hn hn']
    refine .ok (Scan.Alike.ofList fun w hm => ⟨rfl, hu.tail ?_⟩)
    exact (descends_iff hn hf).2 ⟨ha, Array.mem_toList_iff.1 hm⟩

theorem Extends.walks_eq (h : g.Extends g') (hw : g.WF) (hv : g.HasValue v)
    (hops : ∀ u node node', g.view.Reaches v u → g.node? u = some node → g'.node? u = some node' →
      node'.content.operands = node.content.operands) :
    g.view.allDefined v = g'.view.allDefined v ∧ g.view.allUndefinedDeep v = g'.view.allUndefinedDeep v := by
  have hd := h.descentAlike hw hv hops
  exact ⟨hd.allDefined_eq ⟨rfl, .refl⟩, hd.allUndefinedDeep_eq ⟨rfl, .refl⟩⟩

theorem Extends.ask_eq (h : g.Extends g') (hw : g.WF) {q : Inquiry ValueId TypeId}
    (hv : ∀ v ∈ q.values, g.HasValue v) (ht : ∀ t ∈ q.types, g.HasType t)
    (hops : ∀ v, q.start? = some v → ∀ u node node', g.view.Reaches v u → g.node? u = some node →
      g'.node? u = some node' → node'.content.operands = node.content.operands) :
    q.ask g.view = q.ask g'.view := by
  refine (h.alike hw).ask_eq (fun v hm => ⟨rfl, hv v hm⟩) (fun t hm => ?_) fun v hs => ?_
  · obtain ⟨form, hf⟩ := ht t hm
    rw [shape_eq hf, shape_eq (h.form t form hf)]
  · exact h.walks_eq hw (hv v (Inquiry.mem_values_of_start? hs)) (hops v hs)

/-! ## Steps -/

/-- A command leaves a value as it is, or names it, or gives it other operands, which only a phi takes. -/
theorem Accepts.node?_cases (h : g.Accepts c r g') (hn : g.node? v = some node) : g'.node? v = some node ∨
    (∃ name, c = .setName v name ∧ g'.node? v = some { node with name }) ∨
    ∃ incoming, c = .setPhiIncoming v incoming ∧ node.content.opcode? = some .phi ∧
      g'.node? v = some { node with content := node.content.withOperands incoming.toArray } := by
  cases h with
  | type hc ha => exact .inl hn
  | value hm => exact .inl (node?_withNode_of_some hn)
  | argument ht =>
    -- the value that is named is the new one
    have hne : (⟨g.size⟩ : ValueId) ≠ v := by
      rintro rfl
      exact Nat.lt_irrefl _ (node?_eq_some_lt hn)
    rw [node?_withName, if_neg hne]
    exact .inl (node?_withNode_of_some hn)
  | @setPhiIncoming u m incoming hu hp hi =>
    rw [node?_withIncoming, hn]
    by_cases huv : u = v
    · subst huv
      cases hn.symm.trans hu
      rw [if_pos rfl]
      exact .inr (.inr ⟨incoming, rfl, hp, rfl⟩)
    · rw [if_neg huv]
      exact .inl rfl
  | @setName u name hu =>
    rw [node?_withName, hn]
    by_cases huv : u = v
    · subst huv
      rw [if_pos rfl]
      exact .inr (.inl ⟨name, rfl, rfl⟩)
    · rw [if_neg huv]
      exact .inl rfl

theorem node?_after_cases (g : Graph) (c : Command) (hn : g.node? v = some node) :
    (g.after c).node? v = some node ∨
    (∃ name, c = .setName v name ∧ (g.after c).node? v = some { node with name }) ∨
    ∃ incoming, c = .setPhiIncoming v incoming ∧ node.content.opcode? = some .phi ∧
      (g.after c).node? v = some { node with content := node.content.withOperands incoming.toArray } := by
  rcases after_cases g c with he | ⟨r, ha⟩
  · rw [he]; exact .inl hn
  · exact ha.node?_cases hn

/-- How a value may stand after a command: its name may be another, and so may the operands of a phi. -/
structure Keeps (c : Command) (v : ValueId) (node node' : Node) : Prop where
  kind : node'.content.kind = node.content.kind
  type : node'.type = node.type
  payload : node'.content.payload = node.content.payload
  name : node'.name = node.name ∨ c = .setName v node'.name
  operands : node'.content.operands = node.content.operands ∨ node.content.opcode? = some .phi ∧
    ∃ incoming, c = .setPhiIncoming v incoming ∧ node'.content.operands = incoming.toArray

theorem exists_keeps (g : Graph) (c : Command) (hn : g.node? v = some node) :
    ∃ node', (g.after c).node? v = some node' ∧ Keeps c v node node' := by
  rcases node?_after_cases g c hn with h | ⟨name, hc, h⟩ | ⟨incoming, hc, hp, h⟩
  · exact ⟨node, h, rfl, rfl, rfl, .inl rfl, .inl rfl⟩
  · exact ⟨_, h, rfl, rfl, rfl, .inr hc, .inl rfl⟩
  · refine ⟨_, h, Content.kind_withOperands _ _, rfl, Content.payload_withOperands _ _, .inl rfl, .inr ⟨hp, ?_⟩⟩
    exact ⟨incoming, hc, Content.operands_withOperands _ hp⟩

/-! ## Runs -/

theorem foldl_after_operands (commands : List Command) (hn : g.node? v = some node)
    (hc : ∀ incoming, Command.setPhiIncoming v incoming ∉ commands) :
    ∃ node', (commands.foldl Graph.after g).node? v = some node' ∧
      node'.content.operands = node.content.operands := by
  induction commands generalizing g node with
  | nil => exact ⟨node, hn, rfl⟩
  | cons c commands ih =>
    obtain ⟨m, hm, hk⟩ := exists_keeps g c hn
    have hrest : ∀ incoming, Command.setPhiIncoming v incoming ∉ commands :=
      fun incoming hi => hc incoming (List.mem_cons_of_mem _ hi)
    obtain ⟨node', hn', ho⟩ := ih hm hrest
    refine ⟨node', hn', ho.trans ?_⟩
    rcases hk.operands with hm | ⟨-, incoming, rfl, -⟩
    · exact hm
    · exact absurd (List.mem_cons_self ..) (hc incoming)

/-- An inquiry is answered as before however building goes on, unless it walks and incoming values are given to a
value that the descent reaches. -/
theorem Reachable.ask_foldl_after (h : g.Reachable) (commands : List Command) {q : Inquiry ValueId TypeId}
    (hv : ∀ v ∈ q.values, g.HasValue v) (ht : ∀ t ∈ q.types, g.HasType t)
    (hr : ∀ v p incoming, q.start? = some v → Command.setPhiIncoming p incoming ∈ commands →
      ¬ g.view.Reaches v p) : q.ask (commands.foldl Graph.after g).view = q.ask g.view := by
  refine ((foldl_after_extends g commands).ask_eq h.wf hv ht fun v hs u node node' hu hn hn' => ?_).symm
  obtain ⟨m, hm, ho⟩ := foldl_after_operands commands hn fun incoming hi => hr v u incoming hs hi hu
  cases hn'.symm.trans hm
  exact ho

/-- What a command leaves as it is: values and types, but for names and incoming values, and the answers of
inquiries that do not reach such a phi. -/
structure Stable (g : Graph) (c : Command) : Prop where
  value : ∀ v node, g.node? v = some node → ∃ node', (g.after c).node? v = some node' ∧ Keeps c v node node'
  type : ∀ t form, g.types.form? t = some form → (g.after c).types.form? t = some form ∧
    (g.after c).typeName t = g.typeName t ∧ (g.after c).view.shape t = g.view.shape t
  inquiry : ∀ q : Inquiry ValueId TypeId, (∀ v ∈ q.values, g.HasValue v) → (∀ t ∈ q.types, g.HasType t) →
    (∀ v p incoming, q.start? = some v → c = .setPhiIncoming p incoming → ¬ g.view.Reaches v p) →
    q.ask (g.after c).view = q.ask g.view
  conversion : ∀ chain out, (∀ v ∈ chain, g.HasValue v) →
    (g.after c).view.convertIndices chain out = g.view.convertIndices chain out

/-- Building on leaves existing values and types as they are. -/
theorem building_stable (h : g.Reachable) (c : Command) : g.Stable c where
  value := fun v node hn => exists_keeps g c hn
  type := by
    intro t form hf
    have hf' := (after_extends g c).form t form hf
    obtain ⟨-, htree⟩ := h.types_foldl_after [c] ⟨form, hf⟩
    refine ⟨hf', ?_, ?_⟩
    · show TypeTable.name _ t = TypeTable.name _ t
      have htree : (g.after c).types.tree? t = g.types.tree? t := htree
      rw [TypeTable.name, TypeTable.name, htree]
    · rw [shape_eq hf, shape_eq hf']
  inquiry := by
    intro q hv ht hr
    refine h.ask_foldl_after [c] hv ht fun v p incoming hs hm => ?_
    exact hr v p incoming hs (List.mem_singleton.1 hm).symm
  conversion := by
    intro chain out hv
    have hc : List.Forall₂ (fun v w => v = w ∧ g.HasValue v) chain chain :=
      List.forall₂_same.2 fun v hm => ⟨rfl, hv v hm⟩
    exact (((after_extends g c).alike h.wf).convertIndices_eq hc out).symm

/-- Incoming values that are given to a phi change whether the phi is all defined, and not whether another value is
a mask. -/
theorem building_stable_hollow : (hollow.after (.phi ⟨1⟩)).Reachable ∧
    (hollow.after (.phi ⟨1⟩)).Stable (.setPhiIncoming ⟨4⟩ [⟨1⟩]) ∧
    (hollow.after (.phi ⟨1⟩)).view.allDefined ⟨4⟩ = .ok true ∧
    ((hollow.after (.phi ⟨1⟩)).after (.setPhiIncoming ⟨4⟩ [⟨1⟩])).view.allDefined ⟨4⟩ = .ok false ∧
    (Inquiry.hasAllSet ⟨3⟩).ask ((hollow.after (.phi ⟨1⟩)).after (.setPhiIncoming ⟨4⟩ [⟨1⟩])).view =
      (Inquiry.hasAllSet ⟨3⟩).ask (hollow.after (.phi ⟨1⟩)).view := by
  have hr : (hollow.after (.phi ⟨1⟩)).Reachable := .after _ (Reachable.empty.foldl_after _)
  have hs := building_stable hr (.setPhiIncoming ⟨4⟩ [⟨1⟩])
  have hv : (hollow.after (.phi ⟨1⟩)).HasValue ⟨3⟩ := exists_node? (by decide +kernel)
  refine ⟨hr, hs, by decide +kernel, by decide +kernel, ?_⟩
  exact hs.inquiry (.hasAllSet ⟨3⟩) (by simpa [Inquiry.values] using hv) (by simp [Inquiry.types])
    (by rintro v p incoming ⟨⟩)

end Graph

end Lanewise
