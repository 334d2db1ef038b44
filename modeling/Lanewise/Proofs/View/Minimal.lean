/-
What every IR must offer is enough. Where an IR's own operand lists and aggregate elements are what its single
operands give (`Positional`), every analysis answers alike through the IR and through `View.minimal`. A graph is
such an IR, and only the names of its values are lost.
-/
import Lanewise.Proofs.Analysis.Alike
import Lanewise.Proofs.View.Graph

namespace Lanewise

/-! ## Values related to themselves -/

theorem Scan.Alike.refl {V : Type} (s : Scan V) : s.Alike Eq s := by
  induction s with
  | done => exact .done
  | fault f => exact .fault f
  | next v rest ih => exact .next rfl (ih ())

theorem optionRel_refl {α : Type} (a : Option α) : Option.Rel Eq a a := by
  cases a with
  | none => exact .none
  | some a => exact .some rfl

theorem ReadAlike.of_eq_of_refl {α : Type} {R : α → α → Prop} {x y : Except Fault α} (h : x = y)
    (hr : ∀ a, R a a) : ReadAlike R x y := by
  refine (ReadAlike.of_eq h).imp ?_
  rintro a _ rfl
  exact hr a

namespace View

variable {V T : Type} {view : View V T} {v : V}

/-! ## Reads by position -/

/-- The IR's own operand lists and aggregate elements are those found at the positions. -/
structure Positional (view : View V T) : Prop where
  operands : ∀ v, view.minimal.operands v = view.operands v
  aggregateElement : ∀ v i, view.minimal.aggregateElement v i = view.aggregateElement v i

namespace Positional

theorem alike (h : view.Positional) : view.minimal.Alike view Eq where
  kind := by rintro v _ rfl; rfl
  shape := by rintro v _ rfl; exact .of_eq_of_refl rfl fun _ => rfl
  intLiteral := by rintro v _ rfl; rfl
  floatLiteral := by rintro v _ rfl; rfl
  opcode := by rintro v _ rfl; rfl
  intrinsic := by rintro v _ rfl; rfl
  aggregateElement := by rintro v _ i rfl; exact .of_eq_of_refl (h.aggregateElement v i) optionRel_refl
  castSource := by rintro v _ opcode rfl - -; exact .of_eq_of_refl rfl optionRel_refl

theorem descentAlike (h : view.Positional) : DescentAlike view.minimal view Eq := by
  refine h.alike.descentAlike (fun _ _ hr => hr) ?_ ?_
  · rintro v _ rfl
    rfl
  · rintro v _ shape rfl - -
    exact .of_eq_of_refl (h.operands v) Scan.Alike.refl

theorem ask_eq (h : view.Positional) (q : Inquiry V T) : q.ask view.minimal = q.ask view := by
  refine h.alike.ask_eq (fun v _ => rfl) (fun t _ => rfl) fun v _ => ⟨?_, ?_⟩
  · exact h.descentAlike.allDefined_eq rfl
  · exact h.descentAlike.allUndefinedDeep_eq rfl

theorem convertIndices_eq (h : view.Positional) (chain : List V) (out : List UInt32) :
    view.minimal.convertIndices chain out = view.convertIndices chain out :=
  h.alike.convertIndices_eq (List.forall₂_same.2 fun _ _ => rfl) out

theorem profile_eq (h : view.Positional) (v : V) : view.minimal.profile v = view.profile v :=
  h.alike.profile_eq rfl (h.descentAlike.allDefined_eq rfl) (h.descentAlike.allUndefinedDeep_eq rfl)

/-- The name is read last, so it alone is missing from what is read through the minimal view. -/
theorem describe_eq (h : view.Positional) (v : V) : view.describe v = (do
    let described ← view.minimal.describe v
    return { described with name := ← view.name v }) := by
  rw [describe, describe, ← h.operands]
  simp only [bind_assoc, pure_bind]
  rfl

end Positional

/-- What every IR must offer suffices: read through it alone, the IR answers every question the same and shows all
of a value but its name. -/
structure MinimalSuffices (view : View V T) : Prop where
  operands : ∀ v, view.minimal.operands v = view.operands v
  aggregateElement : ∀ v i, view.minimal.aggregateElement v i = view.aggregateElement v i
  inquiry : ∀ q : Inquiry V T, q.ask view.minimal = q.ask view
  conversion : ∀ chain out, view.minimal.convertIndices chain out = view.convertIndices chain out
  profile : ∀ v, view.minimal.profile v = view.profile v
  description : ∀ v, view.describe v = (do
    let described ← view.minimal.describe v
    return { described with name := ← view.name v })

theorem Positional.minimalSuffices (h : view.Positional) : view.MinimalSuffices :=
  ⟨h.operands, h.aggregateElement, h.ask_eq, h.convertIndices_eq, h.profile_eq, h.describe_eq⟩

end View

/-! ## Graphs -/

namespace Graph

variable {g : Graph} {v : ValueId} {node : Node}

theorem minimal_operands_of_node (hn : g.node? v = some node) :
    g.view.minimal.operands v = .ok (.ofList node.content.operands.toList) := by
  have hcount : g.view.operandCount v = .ok node.content.operands.toList.length := (reads hn).operandCount
  have hoperand : g.view.operand v = fun i => .ok node.content.operands.toList[i]? := by
    funext i
    rw [Array.getElem?_toList]
    exact (reads hn).operand i
  show (g.view.operandCount v >>= fun n => .ok (Scan.ofPositions (g.view.operand v) 0 n)) = _
  rw [hcount, hoperand]
  exact congrArg Except.ok (Scan.ofPositions_getElem? _)

/-- The operand list of a graph is what its single operands give, for a value that the graph does not have too. -/
theorem view_positional (g : Graph) : g.view.Positional where
  operands v := by
    cases hn : g.node v with
    | error f =>
      show (g.node v >>= _) >>= _ = g.node v >>= _
      rw [hn]
      rfl
    | ok node =>
      have hn : g.node? v = some node := node_eq_ok_iff.1 hn
      rw [minimal_operands_of_node hn, (reads hn).operands]
  aggregateElement _ _ := rfl

/-- A graph read through what every IR must offer hands out the operands that it stores, and is otherwise as it is
when read through itself. -/
structure MinimalAgrees (g : Graph) : Prop where
  stored : ∀ v node, g.node? v = some node →
    g.view.minimal.operands v = .ok (.ofList node.content.operands.toList)
  view : g.view.MinimalSuffices

/-- What every IR must offer suffices for every graph. -/
theorem minimal_agrees (g : Graph) : g.MinimalAgrees where
  stored := fun _ _ hn => minimal_operands_of_node hn
  view := (view_positional g).minimalSuffices

end Graph

end Lanewise
