/-
Aggregate constants. One is made when the elements fill its type; otherwise the first thing amiss is told, of the
type before the elements and of the elements from the left (`aggregate_checked`).
-/
import Lanewise.Proofs.Graph.WellFormed
import Lanewise.Proofs.View.Graph

namespace Lanewise

/-! ## Forms with elements -/

namespace TypeForm

variable {form : TypeForm} {n i : Nat}

theorem elementCount?_eq_none_iff : form.elementCount? = none ↔ form.shape.isAggregate = false := by
  cases form <;> simp [elementCount?, shape, Shape.isAggregate]

theorem exists_element? (hc : form.elementCount? = some n) (hi : i < n) : ∃ t, form.element? i = some t := by
  cases form with
  | vector element lanes | array element length =>
    cases hc
    exact ⟨element, if_pos hi⟩
  | struct fields =>
    cases hc
    exact ⟨fields[i], List.getElem?_eq_getElem hi⟩
  | _ => cases hc

end TypeForm

namespace Graph

variable {g : Graph} {type : TypeId} {form : TypeForm} {elements : List ValueId} {i : Nat} {v : ValueId}
  {category : BuildErrorCategory} {e : BuildError}

/-! ## The first offender -/

/-- The value is a constant of the type of element `i`. -/
def FitsAt (g : Graph) (form : TypeForm) (i : Nat) (v : ValueId) : Prop :=
  ∃ node, g.node? v = some node ∧ node.content.kind.isConstant = true ∧ form.element? i = some node.type

/-- What is told of a value that is not fit to be element `i`. -/
inductive Misfits (g : Graph) (form : TypeForm) (i : Nat) (v : ValueId) : BuildErrorCategory → BuildError → Prop
  | noSuchValue : g.node? v = none → Misfits g form i v .invalidValue (.noSuchValue v g.size)
  | notConstant {node : Node} : g.node? v = some node → node.content.kind.isConstant = false →
      Misfits g form i v .aggregateMismatch (.elementNotConstant i)
  | elementType {node : Node} {expected : TypeId} : g.node? v = some node →
      node.content.kind.isConstant = true → form.element? i = some expected → node.type ≠ expected →
      Misfits g form i v .aggregateMismatch (.elementType i (g.typeName node.type) (g.typeName expected))

/-- What is told of a type and elements that make no constant. -/
inductive Blames (g : Graph) (type : TypeId) (elements : List ValueId) : BuildErrorCategory → BuildError → Prop
  | noSuchType : g.types.form? type = none → Blames g type elements .invalidType (.noSuchType type)
  | notAggregate {form : TypeForm} : g.types.form? type = some form → form.shape.isAggregate = false →
      Blames g type elements .typeMismatch (.unexpectedType .aggregate (g.typeName type))
  | elementCount {form : TypeForm} {count : Nat} : g.types.form? type = some form →
      form.elementCount? = some count → count ≠ elements.length →
      Blames g type elements .aggregateMismatch (.elementCount (g.typeName type) count elements.length)
  | element {form : TypeForm} {i : Nat} {v : ValueId} {category : BuildErrorCategory} {e : BuildError} :
      g.types.form? type = some form → form.elementCount? = some elements.length → elements[i]? = some v →
      (∀ j < i, ∀ w, elements[j]? = some w → g.FitsAt form j w) → g.Misfits form i v category e →
      Blames g type elements category e

theorem fitsAt_or_misfits {t : TypeId} (ht : form.element? i = some t) (v : ValueId) :
    g.FitsAt form i v ∨ ∃ category e, g.Misfits form i v category e := by
  cases hn : g.node? v with
  | none => exact .inr ⟨_, _, .noSuchValue hn⟩
  | some node =>
    cases hk : node.content.kind.isConstant with
    | false => exact .inr ⟨_, _, .notConstant hn hk⟩
    | true =>
      by_cases he : node.type = t
      · exact .inl ⟨node, hn, hk, he ▸ ht⟩
      · exact .inr ⟨_, _, .elementType hn hk ht he⟩

theorem fills_or_misfits (hc : form.elementCount? = some elements.length) : g.Fills form elements ∨
    ∃ i v category e, elements[i]? = some v ∧ (∀ j < i, ∀ w, elements[j]? = some w → g.FitsAt form j w) ∧
      g.Misfits form i v category e := by
  classical
  by_cases hfit : ∀ i v, elements[i]? = some v → g.FitsAt form i v
  · exact .inl ⟨hc, hfit⟩
  · have hex : ∃ i v, elements[i]? = some v ∧ ¬ g.FitsAt form i v := by
      simpa only [not_forall, exists_prop] using hfit
    obtain ⟨v, hv, hunfit⟩ := Nat.find_spec hex
    have hbefore : ∀ j < Nat.find hex, ∀ w, elements[j]? = some w → g.FitsAt form j w := by
      intro j hj w hw
      by_contra hj'
      exact Nat.find_min hex hj ⟨w, hw, hj'⟩
    obtain ⟨t, ht⟩ := TypeForm.exists_element? hc (List.getElem?_eq_some_iff.1 hv).1
    obtain ⟨category, e, he⟩ := (fitsAt_or_misfits ht v).resolve_left hunfit
    exact .inr ⟨_, v, category, e, hv, hbefore, he⟩

/-- Either an aggregate can be made or something is told of it. -/
theorem fills_or_blames (g : Graph) (type : TypeId) (elements : List ValueId) :
    (∃ form, g.types.form? type = some form ∧ g.Fills form elements) ∨
      ∃ category e, g.Blames type elements category e := by
  cases hf : g.types.form? type with
  | none => exact .inr ⟨_, _, .noSuchType hf⟩
  | some form =>
    cases hc : form.elementCount? with
    | none => exact .inr ⟨_, _, .notAggregate hf (TypeForm.elementCount?_eq_none_iff.1 hc)⟩
    | some count =>
      by_cases hl : count = elements.length
      · rw [hl] at hc
        rcases fills_or_misfits hc with hfill | ⟨i, v, category, e, hv, hbefore, he⟩
        · exact .inl ⟨form, rfl, hfill⟩
        · exact .inr ⟨category, e, .element hf hc hv hbefore he⟩
      · exact .inr ⟨_, _, .elementCount hf hc hl⟩

theorem Misfits.category_eq (h : g.Misfits form i v category e) : e.category = category := by
  cases h <;> rfl

theorem Blames.category_eq (h : g.Blames type elements category e) : e.category = category := by
  cases h with
  | element _ _ _ _ he => exact he.category_eq
  | _ => rfl

end Graph

/-! ## The checks -/

namespace Build

variable {g : Graph} {type : TypeId} {form : TypeForm} {elements : List ValueId} {i : Nat} {v : ValueId}
  {category : BuildErrorCategory} {e : BuildError}

theorem run_checkElements_of_fitsAt (h : g.FitsAt form i v) (elements : List ValueId) :
    (checkElements form i (v :: elements)).run g = (checkElements form (i + 1) elements).run g := by
  obtain ⟨node, hn, hk, ht⟩ := h
  rw [checkElements, EStateM.run_bind, checkValue_passes.2 hn]
  simp [hk, ht]

theorem run_checkElements_of_misfits (h : g.Misfits form i v category e) (elements : List ValueId) :
    (checkElements form i (v :: elements)).run g = .error e g := by
  rw [checkElements, EStateM.run_bind, run_checkValue]
  cases h with
  | noSuchValue hn => rw [hn]
  | notConstant hn hk =>
    rw [hn]
    simp only [hk]
    rfl
  | elementType hn hk ht hne =>
    rw [hn]
    simp only [hk, ht, ne_eq, Option.some.injEq, Ne.symm hne]
    rfl

/-- From any position on, the first value that is not fit is told of. -/
theorem run_checkElements_error {first : Nat} (hv : elements[i]? = some v)
    (hbefore : ∀ j < i, ∀ w, elements[j]? = some w → g.FitsAt form (first + j) w)
    (h : g.Misfits form (first + i) v category e) : (checkElements form first elements).run g = .error e g := by
  induction elements generalizing first i with
  | nil => cases hv
  | cons w elements ih =>
    cases i with
    | zero =>
      cases hv
      exact run_checkElements_of_misfits h elements
    | succ i =>
      have hfirst : g.FitsAt form first w := hbefore 0 (Nat.zero_lt_succ i) w rfl
      rw [run_checkElements_of_fitsAt hfirst]
      -- position `j` of the rest is position `j + 1` of the list
      have hshift : ∀ j, first + 1 + j = first + (j + 1) := fun j => by omega
      refine ih hv (fun j hj u hu => ?_) ?_
      · rw [hshift]
        exact hbefore (j + 1) (Nat.succ_lt_succ hj) u hu
      · rw [hshift]
        exact h

theorem run_constAggregate_of_blames (h : g.Blames type elements category e) :
    (constAggregate type elements).run g = .error e g := by
  rw [constAggregate, EStateM.run_bind, run_checkType]
  cases h with
  | noSuchType hf => rw [hf]
  | notAggregate hf ha =>
    simp only [hf, TypeForm.elementCount?_eq_none_iff.2 ha]
    rfl
  | elementCount hf hc hl =>
    simp only [hf, hc, if_pos hl]
    rfl
  | @element form _ _ _ _ hf hc hv hbefore he =>
    have hcheck : (checkElements form 0 elements).run g = .error e g :=
      run_checkElements_error hv (by simpa using hbefore) (by simpa using he)
    simp only [hf, hc, ne_eq, not_true_eq_false, if_false, EStateM.run_bind, hcheck]

theorem run_constSplat_of_vector {element : TypeId} {lanes : UInt32}
    (hf : g.types.form? type = some (.vector element lanes)) (v : ValueId) :
    (constSplat type v).run g = (constAggregate type (List.replicate lanes.toNat v)).run g := by
  rw [constSplat, EStateM.run_bind, checkType_passes.2 hf]

theorem run_constSplat_of_none (hf : g.types.form? type = none) (v : ValueId) :
    (constSplat type v).run g = .error (.noSuchType type) g := by
  rw [constSplat, EStateM.run_bind, run_checkType, hf]

theorem run_constSplat_of_not_vector (hf : g.types.form? type = some form) (hs : form.shape.isVector = false)
    (v : ValueId) : (constSplat type v).run g = .error (.unexpectedType .vector (g.typeName type)) g := by
  rw [constSplat, EStateM.run_bind, checkType_passes.2 hf]
  cases form with
  | vector element lanes => cases hs
  | _ => rfl

end Build

/-! ## The commands -/

namespace Graph

variable {g g' : Graph} {type : TypeId} {form : TypeForm} {elements : List ValueId} {v : ValueId} {r : Reply}
  {category : BuildErrorCategory} {e : BuildError}

theorem perform_value {c : Command} {m : Build ValueId} (hc : c.run = .value <$> m) : c.perform g =
    match m.run g with
    | .ok v g' => (.ok (.value v), g')
    | .error e g' => (.error e, g') := by
  rw [Command.perform, hc, map_eq_pure_bind, EStateM.run_bind]
  cases m.run g <;> rfl

def withAggregate (g : Graph) (type : TypeId) (elements : List ValueId) : Graph :=
  g.withNode { type, content := .aggregate elements.toArray }

theorem node?_withAggregate (g : Graph) (type : TypeId) (elements : List ValueId) :
    (g.withAggregate type elements).node? ⟨g.size⟩ = some { type, content := .aggregate elements.toArray } :=
  node?_withNode_self _

theorem perform_constAggregate_ok_iff : (Command.constAggregate type elements).perform g = (.ok r, g') ↔
    (∃ form, g.types.form? type = some form ∧ form.shape.isAggregate = true ∧ g.Fills form elements) ∧
      r = .value ⟨g.size⟩ ∧ g' = g.withAggregate type elements := by
  rw [perform_eq_ok_iff]
  constructor
  · intro h
    cases h with
    | type hc => cases hc
    | value hm =>
      cases hm with
      | constAggregate hf hfill => exact ⟨⟨_, hf, hfill.isAggregate, hfill⟩, rfl, rfl⟩
  · rintro ⟨⟨form, hf, -, hfill⟩, rfl, rfl⟩
    exact .value (.constAggregate hf hfill)

/-- What a splat makes is the aggregate it is short for. -/
theorem perform_constSplat_ok_iff : (Command.constSplat type v).perform g = (.ok r, g') ↔
    ∃ element lanes, g.types.form? type = some (.vector element lanes) ∧
      g.Fills (.vector element lanes) (List.replicate lanes.toNat v) ∧
      r = .value ⟨g.size⟩ ∧ g' = g.withAggregate type (List.replicate lanes.toNat v) := by
  rw [perform_eq_ok_iff]
  constructor
  · intro h
    cases h with
    | type hc => cases hc
    | value hm =>
      cases hm with
      | constSplat hf hfill => exact ⟨_, _, hf, hfill, rfl, rfl⟩
  · rintro ⟨element, lanes, hf, hfill, rfl, rfl⟩
    exact .value (.constSplat hf hfill)

theorem perform_constAggregate_of_blames (h : g.Blames type elements category e) :
    (Command.constAggregate type elements).perform g = (.error e, g) := by
  rw [perform_value rfl, Build.run_constAggregate_of_blames h]

theorem perform_constAggregate_error_iff :
    (Command.constAggregate type elements).perform g = (.error e, g') ↔
      g.Blames type elements e.category e ∧ g' = g := by
  constructor
  · intro h
    rcases fills_or_blames g type elements with ⟨form, hf, hfill⟩ | ⟨category, e', hb⟩
    · have hok := perform_constAggregate_ok_iff.2 ⟨⟨form, hf, hfill.isAggregate, hfill⟩, rfl, rfl⟩
      cases h.symm.trans hok
    · cases h.symm.trans (perform_constAggregate_of_blames hb)
      rw [hb.category_eq]
      exact ⟨hb, rfl⟩
  · rintro ⟨hb, rfl⟩
    exact perform_constAggregate_of_blames hb

/-- The value reads as the aggregate constant of the type with the elements. -/
structure ReadsAggregate (g : Graph) (v : ValueId) (type : TypeId) (elements : List ValueId) : Prop where
  kind : g.view.kind v = .ok .constantAggregate
  type : g.view.type v = .ok type
  operandCount : g.view.operandCount v = .ok elements.length
  operands : g.view.operands v = .ok (.ofList elements)
  element : ∀ i, g.view.aggregateElement v i = .ok elements[i]?

theorem withAggregate_reads (g : Graph) (type : TypeId) (elements : List ValueId) :
    (g.withAggregate type elements).ReadsAggregate ⟨g.size⟩ type elements := by
  have hr := reads (g.node?_withAggregate type elements)
  refine ⟨hr.kind, hr.type, hr.operandCount, hr.operands, fun i => ?_⟩
  rw [hr.aggregateElement]
  simp [Content.kind, Content.operands]

/-- An aggregate constant is made and reads as what it was made of, or is refused and the graph is as it was. -/
structure ChecksAggregate (g : Graph) (type : TypeId) (elements : List ValueId) : Prop where
  made : ∀ r g', (Command.constAggregate type elements).perform g = (.ok r, g') ↔
    (∃ form, g.types.form? type = some form ∧ form.shape.isAggregate = true ∧ g.Fills form elements) ∧
      r = .value ⟨g.size⟩ ∧ g' = g.withAggregate type elements
  reads : ∀ v g', (Command.constAggregate type elements).perform g = (.ok (.value v), g') →
    g'.ReadsAggregate v type elements
  refused : ∀ e g', (Command.constAggregate type elements).perform g = (.error e, g') ↔
    g.Blames type elements e.category e ∧ g' = g

/-- On a vector type a splat is the aggregate that repeats the value for every lane; any other type is refused. -/
structure ChecksSplat (g : Graph) (type : TypeId) (v : ValueId) : Prop where
  vector : ∀ element lanes, g.types.form? type = some (.vector element lanes) →
    (Command.constSplat type v).perform g =
      (Command.constAggregate type (List.replicate lanes.toNat v)).perform g
  missing : g.types.form? type = none → (Command.constSplat type v).perform g = (.error (.noSuchType type), g)
  other : ∀ form, g.types.form? type = some form → form.shape.isVector = false →
    (Command.constSplat type v).perform g = (.error (.unexpectedType .vector (g.typeName type)), g)

/-- Aggregate constants are checked in full, and splats as the aggregates they are short for. -/
theorem aggregate_checked (g : Graph) (type : TypeId) :
    (∀ elements, g.ChecksAggregate type elements) ∧ ∀ v, g.ChecksSplat type v := by
  constructor
  · intro elements
    constructor
    case made => exact fun r g' => perform_constAggregate_ok_iff
    case reads =>
      intro v g' h
      obtain ⟨-, hr, rfl⟩ := perform_constAggregate_ok_iff.1 h
      cases hr
      exact withAggregate_reads g type elements
    case refused => exact fun e g' => perform_constAggregate_error_iff
  · intro v
    constructor
    case vector =>
      intro element lanes hf
      rw [perform_value rfl, perform_value rfl, Build.run_constSplat_of_vector hf]
    case missing =>
      intro hf
      rw [perform_value rfl, Build.run_constSplat_of_none hf]
    case other =>
      intro form hf hs
      rw [perform_value rfl, Build.run_constSplat_of_not_vector hf hs]

/-- The first element is no `i8`; that there is no second one is not told. -/
example : ((Command.constAggregate ⟨3⟩ [⟨1⟩, ⟨9⟩]).perform sample).1 = .error (.elementType 0 "float" "i8") := by
  decide +kernel

end Graph

end Lanewise
