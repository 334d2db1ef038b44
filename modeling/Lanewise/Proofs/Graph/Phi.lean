/-
Phis and the types of what they join. Incoming values are compared with the type of the phi, and no value ever
changes its type; so the operands of a phi have its type, unless it was made as an instruction on an operand of
another type and has that operand still.
-/
import Lanewise.Proofs.Graph.Operands

namespace Lanewise.Graph

variable {g g' : Graph} {c : Command} {r : Reply} {v w : ValueId} {node : Node} {type : TypeId}

theorem Extends.hasTyped (h : g.Extends g') (hw : g.HasTyped type w) : g'.HasTyped type w := by
  obtain ⟨node, hn, rfl⟩ := hw
  obtain ⟨node', hn', ht, -⟩ := h.node w node hn
  exact ⟨node', hn', ht⟩

/-- The value is a phi, and its operands have its type. -/
def JoinsTyped (g : Graph) (v : ValueId) : Prop :=
  ∃ node, g.node? v = some node ∧ node.content.opcode? = some .phi ∧
    ∀ w ∈ node.content.operands, g.HasTyped node.type w

/-! ## Steps -/

theorem joinsTyped_withIncoming {incoming : List ValueId} (hn : g.node? v = some node)
    (hp : node.content.opcode? = some .phi) (hi : ∀ w ∈ incoming, g.HasTyped node.type w) :
    (g.withIncoming v incoming).JoinsTyped v := by
  refine ⟨{ node with content := node.content.withOperands incoming.toArray }, ?_, ?_, fun w hw => ?_⟩
  · rw [node?_withIncoming, if_pos rfl, hn]
    rfl
  · exact (Content.opcode?_withOperands _ _).trans hp
  · rw [Content.operands_withOperands _ hp, List.mem_toArray] at hw
    exact (withIncoming_extends hn hp incoming).hasTyped (hi w hw)

theorem joinsTyped_withNode (hc : node.content = .op .phi #[]) : (g.withNode node).JoinsTyped ⟨g.size⟩ := by
  refine ⟨node, node?_withNode_self node, ?_, fun w hw => ?_⟩
  · rw [hc]
    rfl
  · rw [hc] at hw
    cases hw.val

theorem Accepts.joinsTyped (h : g.Accepts c r g') (hj : g.JoinsTyped v) : g'.JoinsTyped v := by
  obtain ⟨node, hn, hp, ht⟩ := hj
  obtain ⟨node', hn', htype, hc⟩ := h.extends.node v node hn
  refine ⟨node', hn', ?_, fun w hw => ?_⟩
  · rcases hc with hc | ⟨-, vs, hc⟩
    · rw [hc, hp]
    · rw [hc, Content.opcode?_withOperands, hp]
  have hnew : v ≠ ⟨g.size⟩ := by
    rintro rfl
    exact Nat.lt_irrefl _ (node?_eq_some_lt hn)
  obtain ⟨name', type', content'⟩ := node'
  rcases h.content_cases hn' with ⟨m, hm, hmt, hmc⟩ | hs
  · cases hn.symm.trans hm
    rw [← hmc] at hw
    rw [← hmt]
    exact h.extends.hasTyped (ht w hw)
  · cases hs with
    | made | argument => exact absurd rfl hnew
    | given hp' ho hi =>
      rw [ho, List.mem_toArray] at hw
      exact h.extends.hasTyped (hi w hw)

theorem after_joinsTyped (c : Command) (hj : g.JoinsTyped v) : (g.after c).JoinsTyped v := by
  rcases after_cases g c with he | ⟨r, ha⟩
  · rw [he]; exact hj
  · exact ha.joinsTyped hj

/-! ## Runs -/

theorem foldl_after_joinsTyped (commands : List Command) (hj : g.JoinsTyped v) :
    (commands.foldl after g).JoinsTyped v := by
  induction commands generalizing g with
  | nil => exact hj
  | cons c commands ih => exact ih (after_joinsTyped c hj)

/-- One of the commands made the value as an instruction with the opcode of a phi, on an operand that did not have
its type, and the value has the operands it was made with. -/
def MadeUntyped (commands : List Command) (v : ValueId) (node : Node) : Prop :=
  ∃ earlier operands later, commands = earlier ++ .instruction node.type .phi operands :: later ∧
    v.index = (earlier.foldl after empty).size ∧ node.content = .op .phi operands.toArray ∧
    ∃ w ∈ operands, ¬ (earlier.foldl after empty).HasTyped node.type w

/-- The operands of a phi instruction have its type, unless it was made on one that has not. -/
theorem joinsTyped_or_madeUntyped (commands : List Command)
    (hn : (commands.foldl after empty).node? v = some node) (hk : node.content.kind = .instruction)
    (hp : node.content.opcode? = some .phi) :
    (commands.foldl after empty).JoinsTyped v ∨ MadeUntyped commands v node := by
  obtain ⟨earlier, c, later, he, hs⟩ := exists_settles commands hn
  have hextends : (earlier.foldl after empty).Extends (commands.foldl after empty) := extends_of_eq_append he
  have hjoins : (∀ w ∈ node.content.operands, (earlier.foldl after empty).HasTyped node.type w) →
      (commands.foldl after empty).JoinsTyped v :=
    fun h => ⟨node, hn, hp, fun w hw => hextends.hasTyped (h w hw)⟩
  obtain ⟨name, type, content⟩ := node
  cases hs with
  | argument ht => cases hk
  | given hp' ho hi =>
    refine .inl (hjoins fun w hw => ?_)
    rw [ho, List.mem_toArray] at hw
    exact hi w hw
  | made hm =>
    cases hm with
    | phi ht => exact .inl (hjoins fun w hw => by cases hw.val)
    | @instruction _ _ operands ht ho =>
      cases hp
      by_cases htyped : ∀ w ∈ operands, (earlier.foldl after empty).HasTyped type w
      · exact .inl (hjoins fun w hw => htyped w (List.mem_toArray.1 hw))
      · push Not at htyped
        exact .inr ⟨earlier, operands, later, he, rfl, rfl, htyped⟩
    | callIntrinsic => cases hp
    | _ => cases hk

/-- What a run of commands keeps of the types of phis and their operands. -/
structure PhisTyped (commands : List Command) : Prop where
  operand : ∀ v node, (commands.foldl after empty).node? v = some node → node.content.kind = .instruction →
    node.content.opcode? = some .phi →
    (∀ w ∈ node.content.operands, (commands.foldl after empty).HasTyped node.type w) ∨
      MadeUntyped commands v node
  made : ∀ type v g', (Command.phi type).perform (commands.foldl after empty) = (.ok (.value v), g') →
    g'.JoinsTyped v
  given : ∀ v incoming g', (Command.setPhiIncoming v incoming).perform (commands.foldl after empty) =
    (.ok .done, g') → g'.JoinsTyped v
  lasting : ∀ v, (commands.foldl after empty).JoinsTyped v → ∀ more : List Command,
    ((commands ++ more).foldl after empty).JoinsTyped v

/-- Every run keeps the operands of phis at their type, but for phis that are made as instructions on operands of
another type. -/
theorem run_phisTyped (commands : List Command) : PhisTyped commands where
  operand := by
    intro v node hn hk hp
    refine (joinsTyped_or_madeUntyped commands hn hk hp).imp_left ?_
    rintro ⟨m, hm, -, ht⟩
    cases hn.symm.trans hm
    exact ht
  made := by
    intro type v g' h
    cases perform_eq_ok_iff.1 h with
    | value hm =>
      cases hm
      exact joinsTyped_withNode rfl
  given := by
    intro v incoming g' h
    cases perform_eq_ok_iff.1 h with
    | setPhiIncoming hn hp hi => exact joinsTyped_withIncoming hn hp hi
  lasting := by
    intro v hj more
    rw [List.foldl_append]
    exact foldl_after_joinsTyped more hj

/-- Commands that make a phi of pointer type as an instruction on an undefined integer. -/
def crossPhi : List Command :=
  [.intType 32, .pointerType, .undef ⟨0⟩, .instruction ⟨1⟩ .phi [⟨0⟩]]

/-- A phi that is made as an instruction takes any operand: one of pointer type takes an integer. -/
theorem instruction_joins_other_type :
    (crossPhi.foldl after empty).node? ⟨0⟩ = some { type := ⟨0⟩, content := .undef } ∧
    (crossPhi.foldl after empty).node? ⟨1⟩ = some { type := ⟨1⟩, content := .op .phi #[⟨0⟩] } ∧
    ¬ ∀ g : Graph, g.Reachable → ∀ v node, g.node? v = some node → node.content.kind = .instruction →
      node.content.opcode? = some .phi → ∀ w ∈ node.content.operands, g.HasTyped node.type w := by
  have hu : (crossPhi.foldl after empty).node? ⟨0⟩ = some { type := ⟨0⟩, content := .undef } := by decide +kernel
  have hphi : (crossPhi.foldl after empty).node? ⟨1⟩ =
      some { type := ⟨1⟩, content := .op .phi #[⟨0⟩] } := by decide +kernel
  refine ⟨hu, hphi, fun h => ?_⟩
  obtain ⟨m, hm, ht⟩ := h _ (Reachable.empty.foldl_after crossPhi) ⟨1⟩ _ hphi rfl rfl ⟨0⟩
    (List.mem_toArray.2 (List.mem_singleton_self _))
  cases hu.symm.trans hm
  cases ht

end Lanewise.Graph
