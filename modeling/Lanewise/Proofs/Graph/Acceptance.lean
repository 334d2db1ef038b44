/-
What building accepts, as rules: which commands are accepted on a graph, what they answer and what graph they
lead to. The steps accept exactly what the rules allow, so that what every step keeps is proved by cases on
the rules.
-/
import Lanewise.Proofs.Graph.Refusal
import Lanewise.Proofs.Types.Interning

namespace Lanewise

/-- The form that a command asks a type of. -/
def Command.form? : Command → Option TypeForm
  | .voidType => some .void
  | .intType bits => some (.int bits)
  | .floatType precision => some (.float precision)
  | .pointerType => some .pointer
  | .vectorType element lanes => some (.vector element lanes)
  | .arrayType element length => some (.array element length)
  | .structType fields => some (.struct fields)
  | _ => none

namespace Graph

def HasType (g : Graph) (t : TypeId) : Prop :=
  ∃ form, g.types.form? t = some form

def HasValue (g : Graph) (v : ValueId) : Prop :=
  ∃ node, g.node? v = some node

/-- The values are as many as the form has elements, and each is a constant of its element type. -/
def Fills (g : Graph) (form : TypeForm) (elements : List ValueId) : Prop :=
  form.elementCount? = some elements.length ∧
    ∀ i v, elements[i]? = some v → ∃ node, g.node? v = some node ∧ node.content.kind.isConstant = true ∧
      form.element? i = some node.type

/-- The commands that make an unnamed value, with the type and the content of the value. -/
inductive Makes (g : Graph) : Command → TypeId → Content → Prop
  | constInt {type : TypeId} {bits : Nat} {value : Int64} : g.types.form? type = some (.int bits) →
      Makes g (.constInt type value) type (.int (signExtend bits value))
  | constFloat {type : TypeId} {precision : Precision} {value : Binary .double} :
      g.types.form? type = some (.float precision) →
      Makes g (.constFloat type value) type (.float (.ofDouble precision value))
  | constAggregate {type : TypeId} {form : TypeForm} {elements : List ValueId} :
      g.types.form? type = some form → g.Fills form elements →
      Makes g (.constAggregate type elements) type (.aggregate elements.toArray)
  | constSplat {type element : TypeId} {lanes : UInt32} {v : ValueId} :
      g.types.form? type = some (.vector element lanes) →
      g.Fills (.vector element lanes) (List.replicate lanes.toNat v) →
      Makes g (.constSplat type v) type (.aggregate (List.replicate lanes.toNat v).toArray)
  | constExpr {type : TypeId} {opcode : Opcode} {operands : List ValueId} :
      g.HasType type → (∀ v ∈ operands, g.HasValue v) →
      Makes g (.constExpr type opcode operands) type (.expr opcode operands.toArray)
  | undef {type : TypeId} : g.HasType type → Makes g (.undef type) type .undef
  | instruction {type : TypeId} {opcode : Opcode} {operands : List ValueId} :
      g.HasType type → (∀ v ∈ operands, g.HasValue v) →
      Makes g (.instruction type opcode operands) type (.op opcode operands.toArray)
  | callIntrinsic {type : TypeId} {intrinsic : Intrinsic} {arguments : List ValueId} :
      g.HasType type → (∀ v ∈ arguments, g.HasValue v) →
      Makes g (.callIntrinsic type intrinsic arguments) type (.call intrinsic arguments.toArray)
  | phi {type : TypeId} : g.HasType type → Makes g (.phi type) type (.op .phi #[])

/-- The commands that are accepted, with their answer and the graph after them. -/
inductive Accepts (g : Graph) : Command → Reply → Graph → Prop
  | type {c : Command} {form : TypeForm} : c.form? = some form → form.Admissible g.types →
      Accepts g c (.type (g.types.intern form).1) (g.withForm form)
  | value {c : Command} {type : TypeId} {content : Content} : g.Makes c type content →
      Accepts g c (.value ⟨g.size⟩) (g.withNode { type, content })
  | argument {type : TypeId} {name : String} : g.HasType type →
      Accepts g (.argument type name) (.value ⟨g.size⟩)
        ((g.withNode { type, content := .argument }).withName ⟨g.size⟩ name)
  | setPhiIncoming {v : ValueId} {node : Node} {incoming : List ValueId} : g.node? v = some node →
      node.content.opcode? = some .phi →
      (∀ w ∈ incoming, ∃ m, g.node? w = some m ∧ m.type = node.type) →
      Accepts g (.setPhiIncoming v incoming) .done (g.withIncoming v incoming)
  | setName {v : ValueId} {name : String} : g.HasValue v →
      Accepts g (.setName v name) .done (g.withName v name)

end Graph

namespace Build

variable {g g' : Graph}

/-! ## Types -/

theorem intern_ok_iff {form : TypeForm} {t : TypeId} : (intern form).run g = .ok t g' ↔
    t = (g.types.intern form).1 ∧ g' = g.withForm form := by
  rw [run_intern, EStateM.Result.ok.injEq]
  exact and_congr eq_comm eq_comm

theorem intType_ok_iff {bits : Nat} {t : TypeId} : (intType bits).run g = .ok t g' ↔
    (TypeForm.int bits).Admissible g.types ∧ (intern (.int bits)).run g = .ok t g' := by
  rw [intType, throw_bind, guard_ok_iff (Refuses.throw _)]
  refine and_congr_left fun _ => ?_
  show _ ↔ 1 ≤ bits ∧ bits ≤ 64
  omega

theorem vectorType_ok_iff {element : TypeId} {lanes : UInt32} {t : TypeId} :
    (vectorType element lanes).run g = .ok t g' ↔
      (TypeForm.vector element lanes).Admissible g.types ∧
        (intern (.vector element lanes)).run g = .ok t g' := by
  have hv : (vectorType element lanes).run g = .ok t g' ↔
      (∃ form, g.types.form? element = some form ∧ ¬ (!form.isVectorElement) = true) ∧
        (if lanes = 0 then throw .noLanes else intern (.vector element lanes) : Build TypeId).run g = .ok t g' :=
    checkType_guard_ok_iff fun _ => Refuses.bind fun _ => Refuses.throw _
  rw [hv, guard_ok_iff (Refuses.throw _), ← and_assoc]
  simp only [Bool.not_eq_true', Bool.not_eq_false]
  rfl

theorem arrayType_ok_iff {element : TypeId} {length : UInt32} {t : TypeId} :
    (arrayType element length).run g = .ok t g' ↔
      (TypeForm.array element length).Admissible g.types ∧
        (intern (.array element length)).run g = .ok t g' :=
  checkType_guard_ok_iff fun _ => Refuses.throw _

theorem structType_ok_iff {fields : List TypeId} {t : TypeId} : (structType fields).run g = .ok t g' ↔
    (TypeForm.struct fields).Admissible g.types ∧ (intern (.struct fields)).run g = .ok t g' := by
  rw [structType, (checkFields_looks fields).then_ok_iff, checkFields_passes]
  rfl

/-! ## Values -/

theorem push_ok_iff {type : TypeId} {content : Content} {v : ValueId} : (push type content).run g = .ok v g' ↔
    v = ⟨g.size⟩ ∧ g' = g.withNode { type, content } := by
  rw [run_push, EStateM.Result.ok.injEq]
  exact and_congr eq_comm eq_comm

theorem discard_checkType_passes {t : TypeId} : (discard (checkType t)).run g = .ok () g ↔ g.HasType t := by
  rw [(checkType_looks t).discard_ok_iff]
  exact exists_congr fun form => checkType_passes

theorem pushTyped_ok_iff {type : TypeId} {content : Content} {v : ValueId} :
    (do discard (checkType type); push type content : Build ValueId).run g = .ok v g' ↔
      g.HasType type ∧ v = ⟨g.size⟩ ∧ g' = g.withNode { type, content } := by
  rw [(checkType_looks type).discard.then_ok_iff, discard_checkType_passes, push_ok_iff]

theorem pushOperands_ok_iff {type : TypeId} {operands : List ValueId} {content : Content} {v : ValueId} :
    (do discard (checkType type); checkOperands operands; push type content : Build ValueId).run g =
      .ok v g' ↔
    (g.HasType type ∧ ∀ v ∈ operands, g.HasValue v) ∧ v = ⟨g.size⟩ ∧ g' = g.withNode { type, content } := by
  rw [(checkType_looks type).discard.then_ok_iff, discard_checkType_passes,
    (checkOperands_looks operands).then_ok_iff, checkOperands_passes, push_ok_iff, and_assoc]
  rfl

theorem constInt_ok_iff {type : TypeId} {value : Int64} {v : ValueId} :
    (constInt type value).run g = .ok v g' ↔
      ∃ bits, g.types.form? type = some (.int bits) ∧ v = ⟨g.size⟩ ∧
        g' = g.withNode { type, content := .int (signExtend bits value) } := by
  rw [constInt, checkType_bind_ok_iff]
  constructor
  · rintro ⟨form, hf, h⟩
    cases form with
    | int bits => exact ⟨bits, hf, push_ok_iff.1 h⟩
    | _ => exact absurd h (Refuses.bind (fun _ => Refuses.throw _) _ _ _)
  · rintro ⟨bits, hf, h⟩; exact ⟨.int bits, hf, push_ok_iff.2 h⟩

theorem constFloat_ok_iff {type : TypeId} {value : Binary .double} {v : ValueId} :
    (constFloat type value).run g = .ok v g' ↔
      ∃ precision, g.types.form? type = some (.float precision) ∧ v = ⟨g.size⟩ ∧
        g' = g.withNode { type, content := .float (.ofDouble precision value) } := by
  rw [constFloat, checkType_bind_ok_iff]
  constructor
  · rintro ⟨form, hf, h⟩
    cases form with
    | float precision => exact ⟨precision, hf, push_ok_iff.1 h⟩
    | _ => exact absurd h (Refuses.bind (fun _ => Refuses.throw _) _ _ _)
  · rintro ⟨precision, hf, h⟩; exact ⟨.float precision, hf, push_ok_iff.2 h⟩

theorem constAggregate_ok_iff {type : TypeId} {elements : List ValueId} {v : ValueId} :
    (constAggregate type elements).run g = .ok v g' ↔
      ∃ form, (g.types.form? type = some form ∧ g.Fills form elements) ∧ v = ⟨g.size⟩ ∧
        g' = g.withNode { type, content := .aggregate elements.toArray } := by
  rw [constAggregate, checkType_bind_ok_iff]
  simp only [and_assoc]
  refine exists_congr fun form => and_congr_right fun hf => ?_
  cases hc : form.elementCount? with
  | none =>
    refine ⟨fun h => absurd h (Refuses.bind (fun _ => Refuses.throw _) _ _ _), ?_⟩
    rintro ⟨⟨hn, -⟩, -⟩
    rw [hc] at hn; cases hn
  | some count =>
    simp only [throw_bind, guard_ok_iff (Refuses.bind fun _ => Refuses.throw _), ne_eq, Decidable.not_not,
      (checkElements_looks form 0 elements).then_ok_iff, checkElements_passes, push_ok_iff, Nat.zero_add]
    rw [Graph.Fills, hc, Option.some.injEq, and_assoc]

theorem constSplat_ok_iff {type : TypeId} {element : ValueId} {v : ValueId} :
    (constSplat type element).run g = .ok v g' ↔
      ∃ e lanes, g.types.form? type = some (.vector e lanes) ∧
        (constAggregate type (List.replicate lanes.toNat element)).run g = .ok v g' := by
  rw [constSplat, checkType_bind_ok_iff]
  constructor
  · rintro ⟨form, hf, h⟩
    cases form with
    | vector e lanes => exact ⟨e, lanes, hf, h⟩
    | _ => exact absurd h (Refuses.bind (fun _ => Refuses.throw _) _ _ _)
  · rintro ⟨e, lanes, hf, h⟩; exact ⟨.vector e lanes, hf, h⟩

theorem setPhiIncoming_ok_iff {v : ValueId} {incoming : List ValueId} {u : Unit} :
    (setPhiIncoming v incoming).run g = .ok u g' ↔
      ∃ node, g.node? v = some node ∧ node.content.opcode? = some .phi ∧
        (∀ w ∈ incoming, ∃ m, g.node? w = some m ∧ m.type = node.type) ∧ g' = g.withIncoming v incoming := by
  rw [setPhiIncoming, checkValue_bind_ok_iff]
  refine exists_congr fun node => and_congr_right fun hn => ?_
  simp only [throw_bind, guard_ok_iff (Refuses.throw _), ne_eq, Decidable.not_not,
    (checkIncoming_looks node.type incoming).then_ok_iff, checkIncoming_passes]
  refine and_congr_right fun _ => and_congr_right fun _ => ?_
  show EStateM.Result.ok () (g.withIncoming v incoming) = .ok u g' ↔ g' = g.withIncoming v incoming
  exact ⟨fun h => by cases h; rfl, fun h => by rw [h]⟩

theorem setName_ok_iff {v : ValueId} {name : String} {u : Unit} : (setName v name).run g = .ok u g' ↔
    g.HasValue v ∧ g' = g.withName v name := by
  rw [run_setName, Graph.HasValue]
  cases g.node? v with
  | some node =>
    constructor
    · intro h; cases h; exact ⟨⟨node, rfl⟩, rfl⟩
    · rintro ⟨-, rfl⟩; rfl
  | none =>
    constructor
    · rintro ⟨⟩
    · rintro ⟨⟨_, ⟨⟩⟩, -⟩

theorem argument_ok_iff {type : TypeId} {name : String} {v : ValueId} :
    (argument type name).run g = .ok v g' ↔ g.HasType type ∧ v = ⟨g.size⟩ ∧
      g' = (g.withNode { type, content := .argument }).withName ⟨g.size⟩ name := by
  cases hf : g.types.form? type with
  | some form =>
    rw [run_argument hf]
    constructor
    · intro h; cases h; exact ⟨⟨form, hf⟩, rfl, rfl⟩
    · rintro ⟨-, rfl, rfl⟩; rfl
  | none =>
    have hn : ¬ g.HasType type := by rintro ⟨form, h⟩; rw [hf] at h; cases h
    rw [argument, (checkType_looks type).discard.then_ok_iff, discard_checkType_passes]
    exact ⟨fun h => absurd h.1 hn, fun h => absurd h.1 hn⟩

end Build

namespace Graph

variable {g g' : Graph} {c : Command} {r : Reply}

open Build in
theorem accepts_of_run (h : c.run.run g = .ok r g') : g.Accepts c r g' := by
  -- what a step checks is what its rule asks, and its answer and graph are those of the rule
  cases c with
  | voidType | floatType _ | pointerType =>
    obtain ⟨t, ht, rfl⟩ := map_ok_iff.1 h
    obtain ⟨rfl, rfl⟩ := intern_ok_iff.1 ht
    exact .type rfl trivial
  | intType bits =>
    obtain ⟨t, ht, rfl⟩ := map_ok_iff.1 h
    obtain ⟨ha, hi⟩ := intType_ok_iff.1 ht
    obtain ⟨rfl, rfl⟩ := intern_ok_iff.1 hi
    exact .type rfl ha
  | vectorType element lanes =>
    obtain ⟨t, ht, rfl⟩ := map_ok_iff.1 h
    obtain ⟨ha, hi⟩ := vectorType_ok_iff.1 ht
    obtain ⟨rfl, rfl⟩ := intern_ok_iff.1 hi
    exact .type rfl ha
  | arrayType element length =>
    obtain ⟨t, ht, rfl⟩ := map_ok_iff.1 h
    obtain ⟨ha, hi⟩ := arrayType_ok_iff.1 ht
    obtain ⟨rfl, rfl⟩ := intern_ok_iff.1 hi
    exact .type rfl ha
  | structType fields =>
    obtain ⟨t, ht, rfl⟩ := map_ok_iff.1 h
    obtain ⟨ha, hi⟩ := structType_ok_iff.1 ht
    obtain ⟨rfl, rfl⟩ := intern_ok_iff.1 hi
    exact .type rfl ha
  | constInt type value =>
    obtain ⟨v, hv, rfl⟩ := map_ok_iff.1 h
    obtain ⟨bits, hf, rfl, rfl⟩ := constInt_ok_iff.1 hv
    exact .value (.constInt hf)
  | constFloat type value =>
    obtain ⟨v, hv, rfl⟩ := map_ok_iff.1 h
    obtain ⟨precision, hf, rfl, rfl⟩ := constFloat_ok_iff.1 hv
    exact .value (.constFloat hf)
  | constAggregate type elements =>
    obtain ⟨v, hv, rfl⟩ := map_ok_iff.1 h
    obtain ⟨form, ⟨hf, he⟩, rfl, rfl⟩ := constAggregate_ok_iff.1 hv
    exact .value (.constAggregate hf he)
  | constSplat type element =>
    obtain ⟨v, hv, rfl⟩ := map_ok_iff.1 h
    obtain ⟨e, lanes, hf, hc⟩ := constSplat_ok_iff.1 hv
    -- the aggregate step reads the same type once more
    obtain ⟨form, ⟨hf', he⟩, rfl, rfl⟩ := constAggregate_ok_iff.1 hc
    cases hf.symm.trans hf'
    exact .value (.constSplat hf he)
  | constExpr type opcode operands =>
    obtain ⟨v, hv, rfl⟩ := map_ok_iff.1 h
    obtain ⟨⟨ht, ho⟩, rfl, rfl⟩ := pushOperands_ok_iff.1 hv
    exact .value (.constExpr ht ho)
  | undef type =>
    obtain ⟨v, hv, rfl⟩ := map_ok_iff.1 h
    obtain ⟨ht, rfl, rfl⟩ := pushTyped_ok_iff.1 hv
    exact .value (.undef ht)
  | argument type name =>
    obtain ⟨v, hv, rfl⟩ := map_ok_iff.1 h
    obtain ⟨ht, rfl, rfl⟩ := argument_ok_iff.1 hv
    exact .argument ht
  | instruction type opcode operands =>
    obtain ⟨v, hv, rfl⟩ := map_ok_iff.1 h
    obtain ⟨⟨ht, ho⟩, rfl, rfl⟩ := pushOperands_ok_iff.1 hv
    exact .value (.instruction ht ho)
  | callIntrinsic type intrinsic arguments =>
    obtain ⟨v, hv, rfl⟩ := map_ok_iff.1 h
    obtain ⟨⟨ht, ho⟩, rfl, rfl⟩ := pushOperands_ok_iff.1 hv
    exact .value (.callIntrinsic ht ho)
  | phi type =>
    obtain ⟨v, hv, rfl⟩ := map_ok_iff.1 h
    obtain ⟨ht, rfl, rfl⟩ := pushTyped_ok_iff.1 hv
    exact .value (.phi ht)
  | setPhiIncoming v incoming =>
    obtain ⟨u, hu, rfl⟩ := map_ok_iff.1 h
    obtain ⟨node, hn, hp, hi, rfl⟩ := setPhiIncoming_ok_iff.1 hu
    exact .setPhiIncoming hn hp hi
  | setName v name =>
    obtain ⟨u, hu, rfl⟩ := map_ok_iff.1 h
    obtain ⟨hv, rfl⟩ := setName_ok_iff.1 hu
    exact .setName hv

open Build in
theorem run_of_accepts (h : g.Accepts c r g') : c.run.run g = .ok r g' := by
  cases h with
  | @type c form hc ha =>
    cases c with
    | voidType | floatType _ | pointerType => cases hc; exact map_ok_iff.2 ⟨_, run_intern _ _, rfl⟩
    | intType bits => cases hc; exact map_ok_iff.2 ⟨_, intType_ok_iff.2 ⟨ha, run_intern _ _⟩, rfl⟩
    | vectorType element lanes =>
      cases hc; exact map_ok_iff.2 ⟨_, vectorType_ok_iff.2 ⟨ha, run_intern _ _⟩, rfl⟩
    | arrayType element length =>
      cases hc; exact map_ok_iff.2 ⟨_, arrayType_ok_iff.2 ⟨ha, run_intern _ _⟩, rfl⟩
    | structType fields => cases hc; exact map_ok_iff.2 ⟨_, structType_ok_iff.2 ⟨ha, run_intern _ _⟩, rfl⟩
    | _ => cases hc
  | value hm =>
    cases hm with
    | constInt hf => exact map_ok_iff.2 ⟨_, constInt_ok_iff.2 ⟨_, hf, rfl, rfl⟩, rfl⟩
    | constFloat hf => exact map_ok_iff.2 ⟨_, constFloat_ok_iff.2 ⟨_, hf, rfl, rfl⟩, rfl⟩
    | constAggregate hf he => exact map_ok_iff.2 ⟨_, constAggregate_ok_iff.2 ⟨_, ⟨hf, he⟩, rfl, rfl⟩, rfl⟩
    | constSplat hf he =>
      have hc := constAggregate_ok_iff.2 ⟨_, ⟨hf, he⟩, rfl, rfl⟩
      exact map_ok_iff.2 ⟨_, constSplat_ok_iff.2 ⟨_, _, hf, hc⟩, rfl⟩
    | constExpr ht ho | instruction ht ho | callIntrinsic ht ho =>
      exact map_ok_iff.2 ⟨_, pushOperands_ok_iff.2 ⟨⟨ht, ho⟩, rfl, rfl⟩, rfl⟩
    | undef ht | phi ht => exact map_ok_iff.2 ⟨_, pushTyped_ok_iff.2 ⟨ht, rfl, rfl⟩, rfl⟩
  | argument ht => exact map_ok_iff.2 ⟨_, argument_ok_iff.2 ⟨ht, rfl, rfl⟩, rfl⟩
  | setPhiIncoming hn hp hi => exact map_ok_iff.2 ⟨(), setPhiIncoming_ok_iff.2 ⟨_, hn, hp, hi, rfl⟩, rfl⟩
  | setName hv => exact map_ok_iff.2 ⟨(), setName_ok_iff.2 ⟨hv, rfl⟩, rfl⟩

theorem perform_eq_ok_iff : c.perform g = (.ok r, g') ↔ g.Accepts c r g' := by
  constructor
  · intro h
    unfold Command.perform at h
    split at h
    · rename_i hr
      cases h
      exact accepts_of_run hr
    · cases h
  · intro h
    rw [Command.perform, run_of_accepts h]

/-- A command leads where a rule says, or nowhere. -/
theorem after_cases (g : Graph) (c : Command) : g.after c = g ∨ ∃ r, g.Accepts c r (g.after c) := by
  unfold after Command.perform
  split
  · rename_i r g' hr
    exact .inr ⟨r, accepts_of_run hr⟩
  · rename_i e g' hr
    exact .inl (c.run_atomic _ _ _ hr)

end Graph

end Lanewise
