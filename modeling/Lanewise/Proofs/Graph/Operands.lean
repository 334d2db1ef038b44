/-
The operands of values. Building replaces only the operands of a value whose opcode is phi, an instruction or an
unfolded expression. So any other value has the operands it was made with, all of them older, and a cycle of
operands passes through a phi.
-/
import Lanewise.Proofs.Graph.WellFormed

namespace Lanewise

namespace Content

variable {c : Content}

theorem kind_of_opcode?_eq_phi (h : c.opcode? = some .phi) : c.kind = .instruction ∨ c.kind = .constantExpr := by
  cases c with
  | op opcode operands => exact .inl rfl
  | expr opcode operands => exact .inr rfl
  | _ => cases h

theorem operands_withOperands (vs : Array ValueId) (hp : c.opcode? = some .phi) :
    (c.withOperands vs).operands = vs := by
  cases c with
  | expr | op | call => rfl
  | _ => cases hp

end Content

namespace Graph

variable {g g' : Graph} {c : Command} {r : Reply} {v w : ValueId} {node : Node}

/-! ## Older operands -/

/-- The operands of every value that is no phi are older than the value. -/
def OperandsOlder (g : Graph) : Prop :=
  ∀ v node, g.node? v = some node → node.content.opcode? ≠ some .phi →
    ∀ w ∈ node.content.operands, w.index < v.index

theorem OperandsOlder.withNode (h : g.OperandsOlder) (hv : ∀ w ∈ node.content.operands, g.HasValue w) :
    (g.withNode node).OperandsOlder := by
  intro v n hn hp w hw
  rw [node?_withNode] at hn
  split at hn
  · rename_i hi
    cases hn
    obtain ⟨m, hm⟩ := hv w hw
    rw [hi]
    exact node?_eq_some_lt hm
  · exact h v n hn hp w hw

theorem OperandsOlder.withName (h : g.OperandsOlder) (v : ValueId) (name : String) :
    (g.withName v name).OperandsOlder := by
  intro u n hn hp w hw
  rw [node?_withName] at hn
  split at hn
  · obtain ⟨m, hm, rfl⟩ := Option.map_eq_some_iff.1 hn
    exact h u m hm hp w hw
  · exact h u n hn hp w hw

theorem OperandsOlder.withIncoming (h : g.OperandsOlder) (hn : g.node? v = some node)
    (hp : node.content.opcode? = some .phi) (incoming : List ValueId) :
    (g.withIncoming v incoming).OperandsOlder := by
  intro u n hu hu' w hw
  rw [node?_withIncoming] at hu
  split at hu
  · rename_i he
    subst he
    rw [hn] at hu
    cases hu
    exact absurd ((Content.opcode?_withOperands _ _).trans hp) hu'
  · exact h u n hu hu' w hw

theorem Accepts.operandsOlder (h : g.Accepts c r g') (hw : g.WF) (ho : g.OperandsOlder) : g'.OperandsOlder := by
  cases h with
  | type hc ha => exact ho
  | value hm => exact ho.withNode (hm.fits hw.types).hasValue
  | argument ht => exact OperandsOlder.withName (ho.withNode fun w hw => by cases hw.val) _ _
  | setPhiIncoming hn hp hi => exact ho.withIncoming hn hp _
  | setName hv => exact ho.withName _ _

theorem Reachable.operandsOlder (h : g.Reachable) : g.OperandsOlder := by
  induction h with
  | empty =>
    intro v node hn
    simp [Graph.empty, node?] at hn
  | @after g c hg ih =>
    rcases after_cases g c with he | ⟨r, ha⟩
    · rw [he]; exact ih
    · exact ha.operandsOlder hg.wf ih

/-! ## Cycles -/

/-- The value has the other among its operands. -/
def Uses (g : Graph) (v w : ValueId) : Prop :=
  ∃ node, g.node? v = some node ∧ w ∈ node.content.operands

/-- The value is there and has the opcode of a phi. -/
def IsPhi (g : Graph) (v : ValueId) : Prop :=
  ∃ node, g.node? v = some node ∧ node.content.opcode? = some .phi

theorem OperandsOlder.lt_of_uses (h : g.OperandsOlder) (hu : g.Uses v w) (hv : ¬ g.IsPhi v) :
    w.index < v.index := by
  obtain ⟨node, hn, hw⟩ := hu
  exact h v node hn (fun hp => hv ⟨node, hn, hp⟩) w hw

/-- A way along operands that meets no phi before its end ends at an older value. -/
theorem OperandsOlder.lt_of_isChain (h : g.OperandsOlder) {path : List ValueId}
    (hc : List.IsChain g.Uses (v :: path ++ [w])) (hp : ∀ u ∈ v :: path, ¬ g.IsPhi u) : w.index < v.index := by
  induction path generalizing v with
  | nil =>
    have hc : List.IsChain g.Uses [v, w] := hc
    rw [List.isChain_cons_cons] at hc
    exact h.lt_of_uses hc.1 (hp v (List.mem_cons_self ..))
  | cons u path ih =>
    have hc : List.IsChain g.Uses (v :: u :: (path ++ [w])) := hc
    rw [List.isChain_cons_cons] at hc
    have hu : u.index < v.index := h.lt_of_uses hc.1 (hp v (List.mem_cons_self ..))
    have hw : w.index < u.index := ih hc.2 fun x hx => hp x (List.mem_cons_of_mem _ hx)
    exact Nat.lt_trans hw hu

/-- A cycle of operands passes through a phi. -/
theorem OperandsOlder.exists_phi (h : g.OperandsOlder) {path : List ValueId}
    (hc : List.IsChain g.Uses (v :: path ++ [v])) : ∃ u ∈ v :: path, g.IsPhi u := by
  by_contra hn
  push Not at hn
  exact Nat.lt_irrefl _ (h.lt_of_isChain hc hn)

/-! ## Where contents come from -/

/-- The value is there and has the type. -/
def HasTyped (g : Graph) (type : TypeId) (v : ValueId) : Prop :=
  ∃ node, g.node? v = some node ∧ node.type = type

/-- The commands that settle the content of a value: those that make it, and those that are accepted and give it
other operands. -/
inductive Settles (g : Graph) : Command → ValueId → TypeId → Content → Prop
  | made {c : Command} {type : TypeId} {content : Content} : g.Makes c type content →
      Settles g c ⟨g.size⟩ type content
  | argument {type : TypeId} {name : String} : g.HasType type →
      Settles g (.argument type name) ⟨g.size⟩ type .argument
  | given {v : ValueId} {type : TypeId} {content : Content} {incoming : List ValueId} :
      content.opcode? = some .phi → content.operands = incoming.toArray → (∀ w ∈ incoming, g.HasTyped type w) →
      ((Command.setPhiIncoming v incoming).perform g).1 = .ok .done →
      Settles g (.setPhiIncoming v incoming) v type content

theorem Accepts.content_cases (h : g.Accepts c r g') (hn : g'.node? v = some node) :
    (∃ m, g.node? v = some m ∧ m.type = node.type ∧ m.content = node.content) ∨
      g.Settles c v node.type node.content := by
  cases h with
  | type hc ha => exact .inl ⟨node, hn, rfl, rfl⟩
  | value hm =>
    rw [node?_withNode] at hn
    split at hn
    · rename_i hi
      obtain ⟨i⟩ := v
      cases hi
      cases hn
      exact .inr (.made hm)
    · exact .inl ⟨node, hn, rfl, rfl⟩
  | argument ht =>
    rw [node?_withName, node?_withNode] at hn
    split at hn
    · rename_i hv
      subst hv
      -- the value that is named is the argument
      rw [if_pos rfl] at hn
      cases hn
      exact .inr (.argument ht)
    · rename_i hv
      rw [if_neg fun hi => hv (by cases v; cases hi; rfl)] at hn
      exact .inl ⟨node, hn, rfl, rfl⟩
  | setPhiIncoming hn' hp hi =>
    rw [node?_withIncoming] at hn
    split at hn
    · rename_i he
      subst he
      rw [hn'] at hn
      cases hn
      exact .inr (.given ((Content.opcode?_withOperands _ _).trans hp) (Content.operands_withOperands _ hp) hi
        (by rw [perform_eq_ok_iff.2 (.setPhiIncoming hn' hp hi)]))
    · exact .inl ⟨node, hn, rfl, rfl⟩
  | setName hv =>
    rw [node?_withName] at hn
    split at hn
    · obtain ⟨m, hm, rfl⟩ := Option.map_eq_some_iff.1 hn
      exact .inl ⟨m, hm, rfl, rfl⟩
    · exact .inl ⟨node, hn, rfl, rfl⟩

/-- Every value of a graph made by commands has the content that one of them settled, on the graph that those
before it lead to. -/
theorem exists_settles (commands : List Command) (hn : (commands.foldl after empty).node? v = some node) :
    ∃ earlier c later, commands = earlier ++ c :: later ∧
      (earlier.foldl after empty).Settles c v node.type node.content := by
  induction commands using List.reverseRecOn generalizing node with
  | nil => simp [empty, node?] at hn
  | append_singleton commands c ih =>
    have hkept : ∀ m, (commands.foldl after empty).node? v = some m → m.type = node.type →
        m.content = node.content → ∃ earlier d later, commands ++ [c] = earlier ++ d :: later ∧
          (earlier.foldl after empty).Settles d v node.type node.content := by
      intro m hm ht hc
      obtain ⟨earlier, d, later, he, hs⟩ := ih hm
      exact ⟨earlier, d, later ++ [c], by rw [he, List.append_assoc, List.cons_append], ht ▸ hc ▸ hs⟩
    rw [List.foldl_append] at hn
    rcases after_cases (commands.foldl after empty) c with he | ⟨r, ha⟩
    · rw [List.foldl_cons, List.foldl_nil, he] at hn
      exact hkept node hn rfl rfl
    · rcases ha.content_cases hn with ⟨m, hm, ht, hc⟩ | hs
      · exact hkept m hm ht hc
      · exact ⟨commands, c, [], rfl, hs⟩

/-- One of the commands made the value, on the graph that those before it lead to, with the type and the
content. -/
def MadeBy (commands : List Command) (v : ValueId) (type : TypeId) (content : Content) : Prop :=
  ∃ earlier c later, commands = earlier ++ c :: later ∧ v.index = (earlier.foldl after empty).size ∧
    (earlier.foldl after empty).Makes c type content

/-- A constant that is no phi has the type and the content it was made with. -/
theorem madeBy_of_constant (commands : List Command)
    (hn : (commands.foldl after empty).node? v = some node) (hk : node.content.kind.isConstant = true)
    (hp : node.content.opcode? ≠ some .phi) : MadeBy commands v node.type node.content := by
  obtain ⟨name, type, content⟩ := node
  obtain ⟨earlier, c, later, he, hs⟩ := exists_settles commands hn
  cases hs with
  | made hm => exact ⟨earlier, c, later, he, rfl, hm⟩
  | argument ht => cases hk
  | given hp' ho hi => exact absurd hp' hp

/-! ## Runs -/

/-- What a run of commands keeps of operands. -/
structure KeepsOperands (commands : List Command) : Prop where
  retargets : ∀ v incoming g', (Command.setPhiIncoming v incoming).perform (commands.foldl after empty) =
    (.ok .done, g') → ∃ node, (commands.foldl after empty).node? v = some node ∧
      node.content.opcode? = some .phi ∧ (node.content.kind = .instruction ∨ node.content.kind = .constantExpr)
  made : ∀ v node, (commands.foldl after empty).node? v = some node → node.content.kind.isConstant = true →
    node.content.opcode? ≠ some .phi → MadeBy commands v node.type node.content
  older : ∀ v node, (commands.foldl after empty).node? v = some node → node.content.kind.isConstant = true →
    node.content.opcode? ≠ some .phi → ∀ w ∈ node.content.operands, w.index < v.index
  cycles : ∀ v path, List.IsChain (commands.foldl after empty).Uses (v :: path ++ [v]) →
    ∃ u ∈ v :: path, (commands.foldl after empty).IsPhi u

theorem opcode?_of_setPhiIncoming {incoming : List ValueId}
    (h : (Command.setPhiIncoming v incoming).perform g = (.ok r, g')) :
    ∃ node, g.node? v = some node ∧ node.content.opcode? = some .phi := by
  cases perform_eq_ok_iff.1 h with
  | type hc ha => cases hc
  | value hm => cases hm
  | setPhiIncoming hn hp hi => exact ⟨_, hn, hp⟩

/-- Every run keeps the operands of constants, but for unfolded expressions whose opcode is phi. -/
theorem run_keepsOperands (commands : List Command) : KeepsOperands commands := by
  have ho : (commands.foldl Graph.after empty).OperandsOlder := (Reachable.empty.foldl_after commands).operandsOlder
  constructor
  · intro v incoming g' h
    obtain ⟨node, hn, hp⟩ := opcode?_of_setPhiIncoming h
    exact ⟨node, hn, hp, Content.kind_of_opcode?_eq_phi hp⟩
  · exact fun v node hn hk hp => madeBy_of_constant commands hn hk hp
  · exact fun v node hn _ hp => ho v node hn hp
  · exact fun v path hc => ho.exists_phi hc

/-- Commands that make an unfolded expression whose opcode is phi. -/
def makeExprPhi : List Command :=
  [.intType 32, .constExpr ⟨0⟩ .phi []]

/-- An unfolded expression that was made with the opcode of a phi takes incoming values, and itself as one. -/
theorem expr_takes_itself : (makeExprPhi.foldl after empty).node? ⟨0⟩ =
      some { type := ⟨0⟩, content := .expr .phi #[] } ∧
    (∃ g', (Command.setPhiIncoming ⟨0⟩ [⟨0⟩]).perform (makeExprPhi.foldl after empty) = (.ok .done, g') ∧
      g'.node? ⟨0⟩ = some { type := ⟨0⟩, content := .expr .phi #[⟨0⟩] }) ∧
    ¬ ∀ v incoming g', (Command.setPhiIncoming v incoming).perform (makeExprPhi.foldl after empty) =
      (.ok .done, g') → ∃ node, (makeExprPhi.foldl after empty).node? v = some node ∧
        node.content.kind = .instruction := by
  have hn : (makeExprPhi.foldl after empty).node? ⟨0⟩ =
      some { type := ⟨0⟩, content := .expr .phi #[] } := by decide +kernel
  have hi : ∀ w ∈ [(⟨0⟩ : ValueId)], ∃ m, (makeExprPhi.foldl after empty).node? w = some m ∧ m.type = ⟨0⟩ := by
    intro w hw
    rw [List.mem_singleton] at hw
    exact ⟨_, hw ▸ hn, rfl⟩
  have hr := perform_eq_ok_iff.2 (Accepts.setPhiIncoming hn rfl hi)
  refine ⟨hn, ⟨_, hr, ?_⟩, fun h => ?_⟩
  · rw [node?_withIncoming, if_pos rfl, hn]
    rfl
  · obtain ⟨node, hn', hk⟩ := h _ _ _ hr
    rw [hn] at hn'
    cases hn'
    cases hk

end Graph

end Lanewise
