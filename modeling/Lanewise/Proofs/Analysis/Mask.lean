/-
Masks, read as what they are made of. `WF.hasAllSet_eq` says by the content of a value which question is asked, or
that none can be.
-/
import Lanewise.Analysis.Mask
import Lanewise.Proofs.View.Graph

namespace Lanewise

/-! ## Asking all -/

namespace Query

variable {α β : Type}

theorem answer_bind (q : Query α) (next : α → Query β) :
    (q >>= next).answer = q.answer >>= fun a => (next a).answer := by
  obtain ⟨events, fault | a⟩ := q
  · rfl
  · rfl

theorem answer_allM (p : α → Query Bool) (xs : List α) :
    (xs.allM p).answer = xs.allM fun x => (p x).answer := by
  induction xs with
  | nil => rfl
  | cons x xs ih =>
    rw [List.allM, List.allM, answer_bind]
    rcases (p x).answer with fault | _ | _
    · rfl
    · rfl
    · exact ih

end Query

section
variable {α ε : Type} {p : α → Except ε Bool} {xs : List α}

theorem allM_eq_true_iff : xs.allM p = .ok true ↔ ∀ x ∈ xs, p x = .ok true := by
  induction xs with
  | nil => exact ⟨fun _ x hx => absurd hx List.not_mem_nil, fun _ => rfl⟩
  | cons x xs ih =>
    rw [List.allM, List.forall_mem_cons, ← ih]
    rcases p x with e | _ | _
    · exact ⟨by rintro ⟨⟩, by rintro ⟨⟨⟩, -⟩⟩
    · exact ⟨by rintro ⟨⟩, by rintro ⟨⟨⟩, -⟩⟩
    · exact ⟨fun h => ⟨rfl, h⟩, And.right⟩

theorem exists_allM_eq_ok (h : ∀ x ∈ xs, ∃ b, p x = .ok b) : ∃ b, xs.allM p = .ok b := by
  induction xs with
  | nil => exact ⟨true, rfl⟩
  | cons x xs ih =>
    rw [List.forall_mem_cons] at h
    obtain ⟨⟨b, hb⟩, hxs⟩ := h
    rw [List.allM, hb]
    cases b with
    | false => exact ⟨false, rfl⟩
    | true => exact ih hxs

end

namespace View

variable {V T : Type} {view : View V T} {v : V}

theorem lanesSet_eq_allM {lanes : List V} {lane : Nat}
    (h : ∀ i, view.aggregateElement v (lane + i) = .ok lanes[i]?) :
    view.lanesSet v lane lanes.length = lanes.allM view.bitsSet := by
  induction lanes generalizing lane with
  | nil => rfl
  | cons element lanes ih =>
    have h0 : view.aggregateElement v lane = .ok (some element) := h 0
    have hrest : ∀ i, view.aggregateElement v (lane + 1 + i) = .ok lanes[i]? := by
      intro i
      rw [Nat.add_assoc, Nat.add_comm 1 i, h (i + 1), List.getElem?_cons_succ]
    rw [List.length_cons, lanesSet, h0, List.allM]
    show view.bitsSet element >>= _ = view.bitsSet element >>= _
    rw [ih hrest]
    congr 1
    funext b
    cases b <;> rfl

theorem hasAllSet_eq {kind : Kind} {shape : Shape T} (hk : view.kind v = .ok kind)
    (hs : view.valueShape v = .ok shape) : view.hasAllSet v =
      if kind.isConstant then
        if shape.isScalar then view.bitsSet v
        else if kind = .constantAggregate ∧ shape.isVector then
          view.lanesSet v 0 shape.componentCount.toNat
        else Query.fail .notAMask
      else return false := by
  rw [hasAllSet, isConstant, hk, hs]
  rfl

end View

namespace Content

/-- The content is an integer literal whose low 32 bits are all ones. -/
def bitsSet : Content → Bool
  | .int value => narrow value == -1
  | _ => false

end Content

namespace Graph

variable {g : Graph} {v : ValueId} {node : Node} {form : TypeForm}

/-- A lane is all ones just when its content is; what is no literal counts as zero. -/
theorem bitsSet_answer (hn : g.node? v = some node) : (g.view.bitsSet v).answer = .ok node.content.bitsSet := by
  rw [View.bitsSet, View.constantInt, (reads hn).intLiteral]
  cases node.content <;> rfl

theorem lanesSet_eq {elements : Array ValueId} {element : TypeId} {lanes : UInt32}
    (hn : g.node? v = some node) (hc : node.content = .aggregate elements)
    (hf : g.Fills (.vector element lanes) elements.toList) :
    g.view.lanesSet v 0 lanes.toNat = elements.toList.allM g.view.bitsSet := by
  have hlanes : lanes.toNat = elements.toList.length := Option.some.inj hf.1
  rw [hlanes]
  refine View.lanesSet_eq_allM fun i => ?_
  rw [Nat.zero_add, (reads hn).aggregateElement i, hc, Array.getElem?_toList]
  rfl

theorem hasAllSet_of_plain (hn : g.node? v = some node) (hf : g.types.form? node.type = some form)
    (hc : node.content.kind.isConstant = true) (ha : node.content.kind ≠ .constantAggregate) :
    g.view.hasAllSet v = if form.shape.isAggregate then Query.fail .notAMask else g.view.bitsSet v := by
  rw [View.hasAllSet_eq (reads hn).kind (valueShape_eq hn hf), if_pos hc, Shape.isScalar]
  have hlanes : ¬ (node.content.kind = .constantAggregate ∧ form.shape.isVector = true) := fun h => ha h.1
  rw [if_neg hlanes]
  cases form.shape.isAggregate <;> rfl

/-- A vector made of its lanes is asked lane by lane, any other constant of aggregate type cannot be asked, and a
scalar constant is asked for its bits. -/
theorem WF.hasAllSet_eq (hw : g.WF) (hn : g.node? v = some node) (hf : g.types.form? node.type = some form) :
    g.view.hasAllSet v =
      match node.content with
      | .argument | .op .. | .call .. => return false
      | .aggregate elements =>
        if form.shape.isVector then elements.toList.allM g.view.bitsSet else Query.fail .notAMask
      | _ => if form.shape.isAggregate then Query.fail .notAMask else g.view.bitsSet v := by
  cases hc : node.content with
  | int _ | float _ | expr _ _ | undef =>
    exact hasAllSet_of_plain hn hf (by rw [hc]; rfl) (by rw [hc]; rintro ⟨⟩)
  | aggregate elements =>
    have hfill := hw.fills hn hc hf
    rw [View.hasAllSet_eq (reads hn).kind (valueShape_eq hn hf), hc]
    cases form with
    | vector element lanes => exact lanesSet_eq hn hc hfill
    | array _ _ | struct _ => rfl
    | _ => cases hfill.1
  | argument | op _ _ | call _ _ =>
    rw [View.hasAllSet_eq (reads hn).kind (valueShape_eq hn hf), hc]
    rfl

/-- The value is there and is an integer literal whose low 32 bits are all ones. -/
def AllOnes (g : Graph) (v : ValueId) : Prop :=
  ∃ node, g.node? v = some node ∧ node.content.bitsSet = true

theorem bitsSet_eq_true_iff (hv : g.HasValue v) : (g.view.bitsSet v).answer = .ok true ↔ g.AllOnes v := by
  obtain ⟨node, hn⟩ := hv
  rw [bitsSet_answer hn, Except.ok.injEq]
  constructor
  · intro h
    exact ⟨node, hn, h⟩
  · rintro ⟨m, hm, h⟩
    cases hn.symm.trans hm
    exact h

/-- A mask is a literal of all ones, or a vector of such literals. -/
theorem WF.hasAllSet_eq_true_iff (hw : g.WF) (hn : g.node? v = some node)
    (hf : g.types.form? node.type = some form) : (g.view.hasAllSet v).answer = .ok true ↔
      node.content.bitsSet = true ∨ ∃ elements, node.content = .aggregate elements ∧
        form.shape.isVector = true ∧ ∀ e ∈ elements, g.AllOnes e := by
  rw [hw.hasAllSet_eq hn hf]
  cases hc : node.content with
  | int value =>
    obtain ⟨bits, hf'⟩ := hw.exists_int hn hc
    cases hf.symm.trans hf'
    have hb := bitsSet_answer hn
    rw [hc] at hb
    show (g.view.bitsSet v).answer = .ok true ↔ _
    rw [hb, Except.ok.injEq]
    exact ⟨.inl, fun h => h.elim id (by rintro ⟨_, ⟨⟩, -⟩)⟩
  | aggregate elements =>
    have hvalue : ∀ e ∈ elements, g.HasValue e :=
      fun e he => (hw.fills hn hc hf).hasValue e (Array.mem_toList_iff.2 he)
    by_cases hv : form.shape.isVector = true
    · show (if form.shape.isVector = true then _ else _ : Query Bool).answer = .ok true ↔ _
      rw [if_pos hv, Query.answer_allM, allM_eq_true_iff]
      constructor
      · intro h
        refine .inr ⟨elements, rfl, hv, fun e he => ?_⟩
        exact (bitsSet_eq_true_iff (hvalue e he)).1 (h e (Array.mem_toList_iff.2 he))
      · rintro (h | ⟨_, ⟨⟩, -, h⟩) e he
        · cases h
        · rw [Array.mem_toList_iff] at he
          exact (bitsSet_eq_true_iff (hvalue e he)).2 (h e he)
    · show (if form.shape.isVector = true then _ else _ : Query Bool).answer = .ok true ↔ _
      rw [if_neg hv]
      exact ⟨by rintro ⟨⟩, by rintro (⟨⟨⟩⟩ | ⟨_, -, h, -⟩); exact absurd h hv⟩
  | float _ | expr _ _ | undef =>
    have hb := bitsSet_answer hn
    rw [hc] at hb
    show (if form.shape.isAggregate = true then _ else _ : Query Bool).answer = .ok true ↔ _
    split
    · exact ⟨by rintro ⟨⟩, by rintro (⟨⟨⟩⟩ | ⟨_, ⟨⟩, -⟩)⟩
    · rw [hb]
      exact ⟨by rintro ⟨⟩, by rintro (⟨⟨⟩⟩ | ⟨_, ⟨⟩, -⟩)⟩
  | argument | op _ _ | call _ _ => exact ⟨by rintro ⟨⟩, by rintro (⟨⟨⟩⟩ | ⟨_, ⟨⟩, -⟩)⟩

end Graph

end Lanewise
