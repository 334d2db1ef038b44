/-
Questions that are answered. On a graph made by building every question has an answer, the walks where the descent
is acyclic; only the question whether a value is a mask faults, and just at the constants that are neither scalars
nor vectors made of their lanes.
-/
import Lanewise.Proofs.Analysis.Alike
import Lanewise.Proofs.Analysis.Definedness
import Lanewise.Proofs.Graph.Soundness
import Lanewise.Proofs.Types.Name

namespace Lanewise

/-! ## Answered queries -/

namespace Query

variable {α β : Type}

/-- The query does not fault. -/
def Answered (q : Query α) : Prop :=
  ∃ a, q.answer = .ok a

theorem read_bind {x : Except Fault α} {a : α} (h : x = .ok a) (next : α → Query β) :
    (liftM x : Query α) >>= next = next a := by
  subst h
  rfl

namespace Answered

theorem pure (a : α) : (pure a : Query α).Answered :=
  ⟨a, rfl⟩

theorem bind {q : Query α} {next : α → Query β} (h : q.Answered) (hn : ∀ a, (next a).Answered) :
    (q >>= next).Answered := by
  obtain ⟨a, ha⟩ := h
  obtain ⟨b, hb⟩ := hn a
  refine ⟨b, ?_⟩
  rw [answer_bind, ha]
  exact hb

theorem map {q : Query α} (h : q.Answered) (f : α → β) : (do return f (← q) : Query β).Answered :=
  h.bind fun a => .pure (f a)

theorem of_read {x : Except Fault α} {a : α} (h : x = .ok a) (f : α → β) :
    (do return f (← x) : Query β).Answered :=
  map ⟨a, h⟩ f

end Answered

theorem Answered.of_option {x : Except Fault (Option α)} {found : Option α} {next : Option α → Query β}
    (h : x = .ok found) (hnone : (next none).Answered) (hsome : ∀ a, found = some a → (next (some a)).Answered) :
    ((liftM x : Query (Option α)) >>= next).Answered := by
  rw [read_bind h]
  cases found with
  | none => exact hnone
  | some a => exact hsome a rfl

theorem zero_answered (sort : LiteralSort) (zero : α) : (do substituteZero sort; return zero : Query α).Answered :=
  ⟨zero, rfl⟩

end Query

/-! ## The analyses of an IR that is read -/

namespace View

open Query

variable {V T : Type} {view : View V T} {v : V}

theorem constantInt_answered {literal : Option Int64} (h : view.intLiteral v = .ok literal) :
    (view.constantInt v).Answered :=
  .of_option h (zero_answered .integer 0) fun value _ => .pure (narrow value)

theorem constantFloat_answered {literal : Option FloatLiteral} (h : view.floatLiteral v = .ok literal) :
    (view.constantFloat v).Answered :=
  .of_option h (zero_answered .float Binary.zero) fun value _ => .pure value.toSingle

theorem constantDouble_answered {literal : Option FloatLiteral} (h : view.floatLiteral v = .ok literal) :
    (view.constantDouble v).Answered :=
  .of_option h (zero_answered .float Binary.zero) fun value _ => .pure value.toDouble

theorem castKeepsLanes_answered {source : Option V} {count : UInt32} (opcode : Opcode)
    (h : view.operand v 0 = .ok source) (hs : ∀ u, source = some u → ∃ n, view.valueComponentCount u = .ok n)
    (hv : view.valueComponentCount v = .ok count) : (view.castKeepsLanes v opcode).Answered := by
  refine .of_option h (.pure false) fun u hu => ?_
  obtain ⟨n, hn⟩ := hs u hu
  show (liftM (view.valueComponentCount u) >>= _ : Query Bool).Answered
  rw [read_bind hn, read_bind hv]
  split
  · exact .pure true
  · exact Answered.bind ⟨(), rfl⟩ fun _ => .pure false

theorem isPerComponentInstruction_answered {intrinsic : Option Intrinsic} {opcode : Option Opcode}
    (hi : view.intrinsic v = .ok intrinsic) (ho : view.opcode v = .ok opcode)
    (hc : ∀ opcode, (view.castKeepsLanes v opcode).Answered) : (view.isPerComponentInstruction v).Answered := by
  refine .of_option hi (.of_option ho (.pure false) fun opcode _ => ?_) fun intrinsic _ => ?_
  · show (if opcode.isTerminator = true then _ else if opcode.isCast = true then _ else _ : Query Bool).Answered
    split
    · exact .pure false
    split
    · exact hc opcode
    · exact .pure opcode.isPerComponent
  · exact Answered.bind ⟨(), rfl⟩ fun _ => .pure intrinsic.isPerComponent

theorem isPerComponentOperation_answered {kind : Kind} (hk : view.kind v = .ok kind)
    (h : (view.isPerComponentInstruction v).Answered) : (view.isPerComponentOperation v).Answered := by
  rw [isPerComponentOperation, read_bind hk]
  split
  · exact h
  · exact .pure _

theorem convertFrom_answered {chain : List V} (h : ∀ v ∈ chain, ∃ literal, view.intLiteral v = .ok literal) :
    ∀ {position : Nat} {out : List UInt32}, chain.length ≤ out.length →
      (view.convertFrom position chain out).query.Answered := by
  induction chain with
  | nil => exact fun _ => .pure _
  | cons v chain ih =>
    intro position out hl
    rw [List.forall_mem_cons] at h
    obtain ⟨⟨literal, hv⟩, hrest⟩ := h
    rw [convertFrom, hv]
    cases literal with
    | none => exact Answered.bind ⟨(), rfl⟩ fun _ => .pure _
    | some value =>
      cases out with
      | nil => exact absurd hl (Nat.not_succ_le_zero _)
      | cons x out => exact ih hrest (Nat.le_of_succ_le_succ hl)

theorem collectIndices_answered {chain : List V}
    (h : ∀ v ∈ chain, ∃ literal, view.intLiteral v = .ok literal) : (view.collectIndices chain).Answered := by
  unfold collectIndices
  have hl : chain.length ≤ (List.replicate chain.length (0 : UInt32)).length := by
    rw [List.length_replicate]
  refine (convertFrom_answered h hl).bind fun result => ?_
  cases result with
  | ok _ => exact .pure _
  | error _ => exact .pure _

end View

/-! ## Graphs -/

namespace Graph

variable {g : Graph} {v : ValueId} {node : Node} {form : TypeForm}

theorem WF.exists_valueComponentCount (hw : g.WF) (hv : g.HasValue v) :
    ∃ n, g.view.valueComponentCount v = .ok n := by
  obtain ⟨node, hn⟩ := hv
  obtain ⟨form, hf⟩ := hw.exists_form hn
  exact ⟨_, valueComponentCount_eq hn hf⟩

theorem WF.isPerComponentInstruction_answered (hw : g.WF) (hn : g.node? v = some node) :
    (g.view.isPerComponentInstruction v).Answered := by
  obtain ⟨n, hv⟩ := hw.exists_valueComponentCount ⟨node, hn⟩
  refine View.isPerComponentInstruction_answered (reads hn).intrinsic (reads hn).opcode fun opcode => ?_
  refine View.castKeepsLanes_answered opcode ((reads hn).operand 0) (fun u hu => ?_) hv
  exact hw.exists_valueComponentCount ((hw.fits v node hn).hasValue u (Array.mem_of_getElem? hu))

/-- Whether a value is a mask cannot be asked: it is an undefined value or an unfolded expression of aggregate
type, or an array or a struct made of its elements. -/
def Unmaskable (g : Graph) (v : ValueId) : Prop :=
  ∃ node form, g.node? v = some node ∧ g.types.form? node.type = some form ∧ form.shape.isAggregate = true ∧
    (node.content.kind = .undef ∨ node.content.kind = .constantExpr ∨
      node.content.kind = .constantAggregate ∧ form.shape.isVector = false)

theorem unmaskable_iff (hn : g.node? v = some node) (hf : g.types.form? node.type = some form) :
    g.Unmaskable v ↔ form.shape.isAggregate = true ∧ (node.content.kind = .undef ∨
      node.content.kind = .constantExpr ∨ node.content.kind = .constantAggregate ∧ form.shape.isVector = false) := by
  constructor
  · rintro ⟨m, f, hm, hf', h⟩
    cases hn.symm.trans hm
    cases hf.symm.trans hf'
    exact h
  · intro h
    exact ⟨node, form, hn, hf, h⟩

theorem bitsSet_answered (hv : g.HasValue v) : (g.view.bitsSet v).Answered := by
  obtain ⟨node, hn⟩ := hv
  exact ⟨_, bitsSet_answer hn⟩

theorem WF.hasAllSet_outcome (hw : g.WF) (hv : g.HasValue v) :
    g.Unmaskable v ∧ (g.view.hasAllSet v).answer = .error .notAMask ∨
      ¬ g.Unmaskable v ∧ (g.view.hasAllSet v).Answered := by
  obtain ⟨node, hn⟩ := hv
  obtain ⟨form, hf⟩ := hw.exists_form hn
  have hfit := hw.fits v node hn
  rw [unmaskable_iff hn hf, hw.hasAllSet_eq hn hf]
  cases hc : node.content with
  | int value =>
    obtain ⟨bits, hf'⟩ := hw.exists_int hn hc
    cases hf.symm.trans hf'
    exact .inr ⟨by rintro ⟨⟨⟩, -⟩, bitsSet_answered ⟨node, hn⟩⟩
  | float literal =>
    rw [hc] at hfit
    cases hf.symm.trans hfit
    exact .inr ⟨by rintro ⟨⟨⟩, -⟩, bitsSet_answered ⟨node, hn⟩⟩
  | aggregate elements =>
    have hfill := hw.fills hn hc hf
    show _ ∧ (if form.shape.isVector = true then _ else _ : Query Bool).answer = _ ∨
      _ ∧ (if form.shape.isVector = true then _ else _ : Query Bool).Answered
    by_cases hvec : form.shape.isVector = true
    · rw [if_pos hvec, hvec]
      refine .inr ⟨by rintro ⟨-, ⟨⟨⟩⟩ | ⟨⟨⟩⟩ | ⟨-, ⟨⟩⟩⟩, ?_⟩
      obtain ⟨b, hb⟩ := exists_allM_eq_ok fun e he => bitsSet_answered (hfill.hasValue e he)
      exact ⟨b, (Query.answer_allM _ _).trans hb⟩
    · rw [if_neg hvec]
      exact .inl ⟨⟨hfill.isAggregate, .inr (.inr ⟨rfl, Bool.eq_false_iff.2 hvec⟩)⟩, rfl⟩
  | expr _ _ | undef =>
    show _ ∧ (if form.shape.isAggregate = true then _ else _ : Query Bool).answer = _ ∨
      _ ∧ (if form.shape.isAggregate = true then _ else _ : Query Bool).Answered
    by_cases ha : form.shape.isAggregate = true
    · rw [if_pos ha]
      exact .inl ⟨⟨ha, by simp [Content.kind]⟩, rfl⟩
    · rw [if_neg ha]
      exact .inr ⟨fun h => ha h.1, bitsSet_answered ⟨node, hn⟩⟩
  | argument | op _ _ | call _ _ => exact .inr ⟨by rintro ⟨-, ⟨⟨⟩⟩ | ⟨⟨⟩⟩ | ⟨⟨⟩, -⟩⟩, .pure false⟩

/-- The question whether a value is a mask faults just where it cannot be asked. -/
theorem WF.hasAllSet_eq_error_iff (hw : g.WF) (hv : g.HasValue v) {fault : Fault} :
    (g.view.hasAllSet v).answer = .error fault ↔ fault = .notAMask ∧ g.Unmaskable v := by
  rcases hw.hasAllSet_outcome hv with ⟨hu, he⟩ | ⟨hu, b, hb⟩
  · rw [he, Except.error.injEq, eq_comm]
    exact ⟨fun h => ⟨h, hu⟩, And.left⟩
  · rw [hb]
    exact ⟨by rintro ⟨⟩, fun h => absurd h.2 hu⟩

theorem WF.fullyUndefined_answered (hw : g.WF) (hv : g.HasValue v) {check : UndefinedCheck}
    (ha : check = .recursive → g.view.Acyclic v) : ∃ b, g.view.fullyUndefined check v = .ok b := by
  cases check with
  | topLevel =>
    obtain ⟨node, hn⟩ := hv
    exact ⟨_, allUndefined_of_node hn⟩
  | recursive =>
    obtain ⟨-, b, -, hb, -⟩ := hw.walksExclusive hv (ha rfl)
    exact ⟨b, hb⟩

/-- Every inquiry about values and types of the graph is answered, if it descends where the descent is acyclic
and asks for a mask where that can be asked. -/
theorem WF.ask_answered (hw : g.WF) {q : Inquiry ValueId TypeId} (hv : ∀ v ∈ q.values, g.HasValue v)
    (ht : ∀ t ∈ q.types, g.HasType t) (ha : ∀ v, q.start? = some v → g.view.Acyclic v)
    (hm : ∀ v, q = .hasAllSet v → ¬ g.Unmaskable v) : (q.ask g.view).Answered := by
  cases q with
  | isScalar t =>
    obtain ⟨form, hf⟩ := ht t (List.mem_singleton_self t)
    exact .of_read (isScalar_eq hf) Answer.truth
  | componentCount t =>
    obtain ⟨form, hf⟩ := ht t (List.mem_singleton_self t)
    exact .of_read (componentCount_eq hf) Answer.count
  | isUndef v =>
    obtain ⟨node, hn⟩ := hv v (List.mem_singleton_self v)
    exact .of_read (isUndef_eq hn) Answer.truth
  | isConstant v =>
    obtain ⟨node, hn⟩ := hv v (List.mem_singleton_self v)
    exact .of_read (isConstant_eq hn) Answer.truth
  | valueComponentCount v =>
    obtain ⟨n, hn⟩ := hw.exists_valueComponentCount (hv v (List.mem_singleton_self v))
    exact .of_read hn Answer.count
  | constantInt v =>
    obtain ⟨node, hn⟩ := hv v (List.mem_singleton_self v)
    exact (View.constantInt_answered (reads hn).intLiteral).map Answer.int
  | constantFloat v =>
    obtain ⟨node, hn⟩ := hv v (List.mem_singleton_self v)
    exact (View.constantFloat_answered (reads hn).floatLiteral).map Answer.single
  | constantDouble v =>
    obtain ⟨node, hn⟩ := hv v (List.mem_singleton_self v)
    exact (View.constantDouble_answered (reads hn).floatLiteral).map Answer.double
  | allDefined v =>
    obtain ⟨b, -, hb, -⟩ := hw.walksExclusive (hv v (List.mem_singleton_self v)) (ha v rfl)
    exact .of_read hb Answer.truth
  | allUndefined v =>
    obtain ⟨node, hn⟩ := hv v (List.mem_singleton_self v)
    exact .of_read (allUndefined_of_node hn) Answer.truth
  | allUndefinedDeep v =>
    obtain ⟨-, b, -, hb, -⟩ := hw.walksExclusive (hv v (List.mem_singleton_self v)) (ha v rfl)
    exact .of_read hb Answer.truth
  | fullyUndefined check v =>
    have hacyclic : check = .recursive → g.view.Acyclic v := by
      rintro rfl
      exact ha v rfl
    obtain ⟨b, hb⟩ := hw.fullyUndefined_answered (hv v (List.mem_singleton_self v)) hacyclic
    exact .of_read hb Answer.truth
  | hasAllSet v =>
    rcases hw.hasAllSet_outcome (hv v (List.mem_singleton_self v)) with ⟨hu, -⟩ | ⟨-, h⟩
    · exact absurd hu (hm v rfl)
    · exact h.map Answer.truth
  | isPerComponentInstruction v =>
    obtain ⟨node, hn⟩ := hv v (List.mem_singleton_self v)
    exact (hw.isPerComponentInstruction_answered hn).map Answer.truth
  | isPerComponentOperation v =>
    obtain ⟨node, hn⟩ := hv v (List.mem_singleton_self v)
    have h := View.isPerComponentOperation_answered (reads hn).kind (hw.isPerComponentInstruction_answered hn)
    exact h.map Answer.truth
  | collectIndices chain =>
    have hl : ∀ v ∈ chain, ∃ literal, g.view.intLiteral v = .ok literal := by
      intro v hm
      obtain ⟨node, hn⟩ := hv v hm
      exact ⟨_, (reads hn).intLiteral⟩
    exact (View.collectIndices_answered hl).map Answer.indices

/-- A type is read as its form, and its name spells the tree it stands for. -/
structure ReadsType (g : Graph) (t : TypeId) (form : TypeForm) : Prop where
  read : g.form t = .ok form
  shape : g.view.shape t = .ok form.shape
  parts : ∀ part ∈ form.components, g.HasType part
  name : ∃ tree, g.types.tree? t = some tree ∧ g.typeName t = tree.spelling

theorem WF.readsType (hw : g.WF) {t : TypeId} (hf : g.types.form? t = some form) : g.ReadsType t form := by
  refine ⟨form_eq_ok_iff.2 hf, shape_eq hf, fun part hp => ?_, ?_⟩
  · have hlt : part.index < t.index := hw.types.older t form hf part hp
    exact TypeTable.exists_form? (Nat.lt_trans hlt (TypeTable.form?_eq_some_lt hf))
  · obtain ⟨tree, htree⟩ := Option.isSome_iff_exists.1
      (TypeTable.tree?_isSome hw.types (TypeTable.form?_eq_some_lt hf))
    exact ⟨tree, htree, TypeTable.name_of_tree? htree⟩

/-- A graph answers every read and every inquiry, the walks where their descent is acyclic and masks where they can
be asked for. -/
structure Answers (g : Graph) : Prop where
  value : ∀ v, g.HasValue v → ∃ node, g.node v = .ok node ∧ g.Reads v node ∧ g.HasType node.type ∧
    ∀ w ∈ node.content.operands, g.HasValue w
  type : ∀ t, g.HasType t → ∃ form, g.ReadsType t form
  prints : ∃ text, g.dump = .ok text
  inquiry : ∀ q : Inquiry ValueId TypeId, (∀ v ∈ q.values, g.HasValue v) → (∀ t ∈ q.types, g.HasType t) →
    (∀ v, q.start? = some v → g.view.Acyclic v) → (∀ v, q ≠ .hasAllSet v) → (q.ask g.view).Answered
  mask : ∀ v, g.HasValue v → ∀ fault,
    (g.view.hasAllSet v).answer = .error fault ↔ fault = .notAMask ∧ g.Unmaskable v

/-- Every graph made by building answers what it is asked. -/
theorem queries_answered (h : g.Reachable) : g.Answers where
  value := by
    rintro v ⟨node, hn⟩
    have hfit := h.wf.fits v node hn
    exact ⟨node, node_eq_ok_iff.2 hn, reads hn, hfit.hasType, hfit.hasValue⟩
  type := by
    rintro t ⟨form, hf⟩
    exact ⟨form, h.wf.readsType hf⟩
  prints := by
    obtain ⟨lines, hd, -⟩ := h.wf.exists_dump
    exact ⟨_, hd⟩
  inquiry := fun q hv ht ha hq => h.wf.ask_answered hv ht ha fun v hv => absurd hv (hq v)
  mask := fun v hv fault => h.wf.hasAllSet_eq_error_iff hv

/-- Of a vector of undefined lanes it can be asked whether it is a mask, of an undefined vector it cannot. -/
theorem queries_answered_hollow : (hollow.after (.undef ⟨1⟩)).Reachable ∧
    ((hollow.after (.undef ⟨1⟩)).view.hasAllSet ⟨1⟩).answer = .ok false ∧
    (hollow.after (.undef ⟨1⟩)).Unmaskable ⟨4⟩ ∧
    ((hollow.after (.undef ⟨1⟩)).view.hasAllSet ⟨4⟩).answer = .error .notAMask := by
  have hr : (hollow.after (.undef ⟨1⟩)).Reachable := .after _ (Reachable.empty.foldl_after _)
  have hn : (hollow.after (.undef ⟨1⟩)).node? ⟨4⟩ = some { type := ⟨1⟩, content := .undef } := by decide +kernel
  have hf : (hollow.after (.undef ⟨1⟩)).types.form? ⟨1⟩ = some (.vector ⟨0⟩ 2) := by decide +kernel
  have hu : (hollow.after (.undef ⟨1⟩)).Unmaskable ⟨4⟩ := ⟨_, _, hn, hf, rfl, .inl rfl⟩
  exact ⟨hr, by decide +kernel, hu, ((queries_answered hr).mask ⟨4⟩ ⟨_, hn⟩ .notAMask).2 ⟨rfl, hu⟩⟩

end Graph

end Lanewise
