/-
A refused step of building changes nothing. Every step but one only looks until it can no longer be
refused; an argument is made before it is named, and there the naming is never refused.
-/
import Lanewise.Proofs.Graph.Outcome
import Mathlib.Control.Monad.Basic

namespace Lanewise

namespace Build

variable {α β : Type}

/-! ## Combining atomic steps -/

namespace Atomic

theorem bind {m : Build α} {f : α → Build β} (hm : Looks m) (hf : ∀ a, Atomic (f a)) : Atomic (m >>= f) := by
  intro g e g' h
  rcases bind_error_iff.1 h with he | ⟨a, h', ha, he⟩
  · exact hm.refused _ _ _ he
  · exact (hf a _ _ _ he).trans (hm.accepted _ _ _ ha)

theorem ite {c : Prop} [Decidable c] {m n : Build α} (hm : Atomic m) (hn : Atomic n) :
    Atomic (if c then m else n) := by
  split
  · exact hm
  · exact hn

theorem map {m : Build α} (hm : Atomic m) (f : α → β) : Atomic (f <$> m) := by
  intro g e g' h
  rw [map_eq_pure_bind] at h
  rcases bind_error_iff.1 h with he | ⟨a, h', ha, he⟩
  · exact hm _ _ _ he
  · cases he

theorem modifyGet (f : Graph → α × Graph) : Atomic (MonadStateOf.modifyGet f : Build α) := by
  rintro g e g' ⟨⟩

theorem throw (e : BuildError) : Atomic (MonadExcept.throw e : Build α) :=
  (Looks.throw e).refused

end Atomic

/-! ## The steps -/

theorem intern_atomic (form : TypeForm) : Atomic (intern form) :=
  Atomic.modifyGet _

theorem push_atomic (type : TypeId) (content : Content) : Atomic (push type content) :=
  Atomic.modifyGet _

theorem intType_atomic (bits : Nat) : Atomic (intType bits) :=
  Atomic.ite (Atomic.throw _) (intern_atomic _)

theorem vectorType_atomic (element : TypeId) (lanes : UInt32) : Atomic (vectorType element lanes) := by
  refine Atomic.bind (checkType_looks element) fun form => Atomic.ite ?_ ?_
  · exact Atomic.bind (typeName_looks element) fun _ => Atomic.throw _
  · exact Atomic.ite (Atomic.throw _) (intern_atomic _)

theorem arrayType_atomic (element : TypeId) (length : UInt32) : Atomic (arrayType element length) :=
  Atomic.bind (checkType_looks element) fun _ => Atomic.ite (Atomic.throw _) (intern_atomic _)

theorem structType_atomic (fields : List TypeId) : Atomic (structType fields) :=
  Atomic.bind (checkFields_looks fields) fun _ => intern_atomic _

theorem setName_atomic (v : ValueId) (name : String) : Atomic (setName v name) :=
  Atomic.bind (checkValue_looks v).discard fun _ => Atomic.modifyGet _

theorem constInt_atomic (type : TypeId) (value : Int64) : Atomic (constInt type value) := by
  refine Atomic.bind (checkType_looks type) fun form => ?_
  cases form with
  | int bits => exact push_atomic _ _
  | _ => exact Atomic.bind (typeName_looks type) fun _ => Atomic.throw _

theorem constFloat_atomic (type : TypeId) (value : Binary .double) : Atomic (constFloat type value) := by
  refine Atomic.bind (checkType_looks type) fun form => ?_
  cases form with
  | float precision => exact push_atomic _ _
  | _ => exact Atomic.bind (typeName_looks type) fun _ => Atomic.throw _

theorem constAggregate_atomic (type : TypeId) (elements : List ValueId) :
    Atomic (constAggregate type elements) := by
  refine Atomic.bind (checkType_looks type) fun form => ?_
  cases form.elementCount? with
  | none => exact Atomic.bind (typeName_looks type) fun _ => Atomic.throw _
  | some count =>
    refine Atomic.ite (Atomic.bind (typeName_looks type) fun _ => Atomic.throw _) ?_
    exact Atomic.bind (checkElements_looks form 0 elements) fun _ => push_atomic _ _

theorem constSplat_atomic (type : TypeId) (element : ValueId) : Atomic (constSplat type element) := by
  refine Atomic.bind (checkType_looks type) fun form => ?_
  cases form with
  | vector _ lanes => exact constAggregate_atomic _ _
  | _ => exact Atomic.bind (typeName_looks type) fun _ => Atomic.throw _

theorem pushTyped_atomic (type : TypeId) (content : Content) :
    Atomic (do discard (checkType type); push type content) :=
  Atomic.bind (checkType_looks type).discard fun _ => push_atomic _ _

theorem pushOperands_atomic (type : TypeId) (operands : List ValueId) (content : Content) :
    Atomic (do discard (checkType type); checkOperands operands; push type content) :=
  Atomic.bind (checkType_looks type).discard fun _ =>
    Atomic.bind (checkOperands_looks operands) fun _ => push_atomic _ _

/-- The type alone can refuse an argument: once the value is made, it is there to be named. -/
theorem argument_atomic (type : TypeId) (name : String) : Atomic (argument type name) := by
  intro g e g' h
  cases hf : g.types.form? type with
  | some form => rw [run_argument hf] at h; cases h
  | none =>
    rw [argument, EStateM.run_bind, run_discard, run_checkType, hf] at h
    cases h; rfl

theorem setPhiIncoming_atomic (v : ValueId) (incoming : List ValueId) :
    Atomic (setPhiIncoming v incoming) := by
  refine Atomic.bind (checkValue_looks v) fun node => Atomic.ite (Atomic.throw _) ?_
  exact Atomic.bind (checkIncoming_looks node.type incoming) fun _ => Atomic.modifyGet _

end Build

namespace Command

theorem run_atomic (c : Command) : Build.Atomic c.run := by
  cases c with
  | voidType | floatType | pointerType => exact (Build.intern_atomic _).map _
  | intType bits => exact (Build.intType_atomic bits).map _
  | vectorType element lanes => exact (Build.vectorType_atomic element lanes).map _
  | arrayType element length => exact (Build.arrayType_atomic element length).map _
  | structType fields => exact (Build.structType_atomic fields).map _
  | constInt type value => exact (Build.constInt_atomic type value).map _
  | constFloat type value => exact (Build.constFloat_atomic type value).map _
  | constAggregate type elements => exact (Build.constAggregate_atomic type elements).map _
  | constSplat type element => exact (Build.constSplat_atomic type element).map _
  | undef type | phi type => exact (Build.pushTyped_atomic type _).map _
  | constExpr type _ operands | instruction type _ operands | callIntrinsic type _ operands =>
    exact (Build.pushOperands_atomic type operands _).map _
  | argument type name => exact (Build.argument_atomic type name).map _
  | setPhiIncoming v incoming => exact (Build.setPhiIncoming_atomic v incoming).map _
  | setName v name => exact (Build.setName_atomic v name).map _

/-- A command that is refused leaves the graph as it was, whatever was already done by then. -/
theorem perform_refused {c : Command} {g g' : Graph} {e : BuildError} (h : c.perform g = (.error e, g')) :
    g' = g := by
  unfold perform at h
  split at h
  · cases h
  · rename_i hr
    cases h
    exact run_atomic c _ _ _ hr

/-- The phi of the sample keeps its incoming values when the second of the new ones is refused. -/
theorem perform_refused_sample :
    (Command.setPhiIncoming ⟨5⟩ [⟨4⟩, ⟨0⟩]).perform .sample =
      (.error (.unexpectedType .incomingValue "i8"), .sample) := by
  have h : ((Command.setPhiIncoming ⟨5⟩ [⟨4⟩, ⟨0⟩]).perform .sample).1 =
      .error (.unexpectedType .incomingValue "i8") := by decide +kernel
  generalize hp : (Command.setPhiIncoming ⟨5⟩ [⟨4⟩, ⟨0⟩]).perform .sample = p at h
  obtain ⟨r, g'⟩ := p
  obtain rfl : r = _ := h
  rw [perform_refused hp]

end Command

end Lanewise
