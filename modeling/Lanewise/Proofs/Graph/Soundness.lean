/-
Reading a node by its kind and its payload, as printing does. In a graph made by building the kind decides
which payload a node holds, and what its type and its operands are; so every value prints as a line of its
kind.
-/
import Lanewise.Graph.Dump
import Lanewise.Proofs.Graph.WellFormed

namespace Lanewise

/-- The kind and the payload of a content fit. -/
theorem Content.exists_describe? (type operands : String) (c : Content) :
    ∃ body, c.payload.describe? type operands c.kind = some body := by
  cases c <;> exact ⟨_, rfl⟩

namespace Graph

variable {g : Graph} {v : ValueId}

/-! ## Sound nodes -/

/-- The references of a node are to types and values of the graph, and its kind decides its payload, its type
and its operands. -/
structure Sound (g : Graph) (node : Node) : Prop where
  type : g.HasType node.type
  operands : ∀ w ∈ node.content.operands, g.HasValue w
  constantInt : node.content.kind = .constantInt → ∃ bits value, 1 ≤ bits ∧
    g.types.form? node.type = some (.int bits) ∧ node.content.payload = .int value ∧
    -(2 : Int) ^ (bits - 1) ≤ value.toInt ∧ value.toInt < (2 : Int) ^ (bits - 1)
  constantFloat : node.content.kind = .constantFloat → ∃ literal,
    g.types.form? node.type = some (.float literal.precision) ∧ node.content.payload = .float literal
  constantAggregate : node.content.kind = .constantAggregate → ∃ form,
    g.types.form? node.type = some form ∧ form.shape.isAggregate = true ∧
    g.Fills form node.content.operands.toList
  constantExpr : node.content.kind = .constantExpr → ∃ opcode, node.content.payload = .op opcode
  leaf : node.content.kind = .undef ∨ node.content.kind = .argument →
    node.content.payload = .none ∧ node.content.operands = #[]
  instruction : node.content.kind = .instruction →
    (∃ opcode, node.content.payload = .op opcode) ∨ ∃ callee, node.content.payload = .intrinsic callee

theorem WF.sound (h : g.WF) {node : Node} (hn : g.node? v = some node) : g.Sound node := by
  have hfit := h.fits v node hn
  obtain ⟨name, type, content⟩ := node
  -- the kind leaves one content, or two for an instruction and for a leaf
  refine ⟨hfit.hasType, hfit.hasValue, fun hk => ?_, fun hk => ?_, fun hk => ?_, fun hk => ?_, fun hk => ?_,
    fun hk => ?_⟩
  · cases content with
    | int value =>
      obtain ⟨bits, hf, hb⟩ := hfit
      exact ⟨bits, value, (h.types.admissible _ _ hf).1, hf, rfl, hb⟩
    | _ => cases hk
  · cases content with
    | float literal => exact ⟨literal, hfit, rfl⟩
    | _ => cases hk
  · cases content with
    | aggregate elements =>
      obtain ⟨form, hf, he⟩ := hfit
      exact ⟨form, hf, he.isAggregate, he⟩
    | _ => cases hk
  · cases content with
    | expr opcode operands => exact ⟨opcode, rfl⟩
    | _ => cases hk
  · cases content with
    | undef | argument => exact ⟨rfl, rfl⟩
    | _ => simp [Content.kind] at hk
  · cases content with
    | op opcode operands => exact .inl ⟨opcode, rfl⟩
    | call callee arguments => exact .inr ⟨callee, rfl⟩
    | _ => cases hk

/-! ## Printing -/

theorem exists_mapM_ok {α β ε : Type} {f : α → Except ε β} {R : α → β → Prop} {xs : List α}
    (h : ∀ x ∈ xs, ∃ y, f x = .ok y ∧ R x y) : ∃ ys, xs.mapM f = .ok ys ∧ List.Forall₂ R xs ys := by
  induction xs with
  | nil => exact ⟨[], rfl, .nil⟩
  | cons x xs ih =>
    rw [List.forall_mem_cons] at h
    obtain ⟨y, hy, hr⟩ := h.1
    obtain ⟨ys, hys, hrs⟩ := ih h.2
    refine ⟨y :: ys, ?_, .cons hr hrs⟩
    rw [List.mapM_cons, hy, hys]
    rfl

def Labels (g : Graph) (v : ValueId) (label : String) : Prop :=
  ∃ node, g.node? v = some node ∧ label = node.label v

/-- The line is that of the value: its kind and its payload fit, and its operands have labels. -/
def Prints (g : Graph) (v : ValueId) (line : String) : Prop :=
  ∃ node labels body, g.node? v = some node ∧ List.Forall₂ g.Labels node.content.operands.toList labels ∧
    node.content.payload.describe? (g.typeName node.type) (", ".intercalate labels) node.content.kind =
      some body ∧ line = node.label v ++ " = " ++ Text.trimEnd body ++ "\n"

theorem exists_label (h : g.HasValue v) : ∃ label, g.label v = .ok label ∧ g.Labels v label := by
  obtain ⟨node, hn⟩ := h
  refine ⟨node.label v, ?_, node, hn, rfl⟩
  rw [label, node_eq_ok_iff.2 hn]
  rfl

theorem WF.exists_line (h : g.WF) (hv : v ∈ g.values) : ∃ line, g.line v = .ok line ∧ g.Prints v line := by
  obtain ⟨node, hn⟩ := exists_node? (mem_values_iff.1 hv)
  have hops : ∀ w ∈ node.content.operands.toList, g.HasValue w :=
    fun w hw => (h.fits v node hn).hasValue w ⟨hw⟩
  obtain ⟨labels, hl, hls⟩ := exists_mapM_ok fun w hw => exists_label (hops w hw)
  obtain ⟨body, hb⟩ := node.content.exists_describe? (g.typeName node.type) (", ".intercalate labels)
  refine ⟨node.label v ++ " = " ++ Text.trimEnd body ++ "\n", ?_, node, labels, body, hn, hls, hb, rfl⟩
  rw [line, node_eq_ok_iff.2 hn]
  show (node.content.operands.toList.mapM g.label >>= _) = _
  rw [hl]
  show Except.ok (node.label v ++ " = " ++ Text.trimEnd ((node.content.payload.describe? _ _ _).getD _) ++ "\n") = _
  rw [hb, Option.getD_some]

theorem WF.exists_dump (h : g.WF) :
    ∃ lines, g.dump = .ok (String.join lines) ∧ List.Forall₂ g.Prints g.values lines := by
  obtain ⟨lines, hm, hp⟩ := exists_mapM_ok fun v hv => h.exists_line hv
  refine ⟨lines, ?_, hp⟩
  rw [dump, hm]
  rfl

/-- Every node of a graph made by building is sound, and the graph prints as one line for each value, none of
them malformed. -/
theorem nodes_sound_and_printed (h : g.Reachable) : (∀ v node, g.node? v = some node → g.Sound node) ∧
    ∃ lines, g.dump = .ok (String.join lines) ∧ List.Forall₂ g.Prints g.values lines :=
  ⟨fun _ _ hn => h.wf.sound hn, h.wf.exists_dump⟩

/-- The literal that the sample makes of 255 in 8 bits. -/
theorem nodes_sound_and_printed_sample : sample.Reachable ∧
    sample.node? ⟨0⟩ = some { type := ⟨0⟩, content := .int (-1) } ∧
    sample.Sound { type := ⟨0⟩, content := .int (-1) } ∧
    ∃ lines, sample.dump = .ok (String.join lines) ∧ List.Forall₂ sample.Prints sample.values lines := by
  have hn : sample.node? ⟨0⟩ = some { type := ⟨0⟩, content := .int (-1) } := by decide +kernel
  obtain ⟨hs, hd⟩ := nodes_sound_and_printed sample_reachable
  exact ⟨sample_reachable, hn, hs _ _ hn, hd⟩

end Graph

end Lanewise
