/-
How wide a type is, told in four ways that agree (`widths_agree`). An aggregate constant is as wide as its type,
so the search through the lanes of a mask never comes to a lane without an element.
-/
import Lanewise.Proofs.Analysis.Mask
import Lanewise.Proofs.Graph.Aggregate

namespace Lanewise

/-! ## Forms -/

namespace TypeForm

variable {form : TypeForm} {n i : Nat}

/-- A struct has as many fields as its shape can count. Vectors and arrays have no more elements than that. -/
def Countable (form : TypeForm) : Prop :=
  ∀ fields, form = .struct fields → fields.length < 2 ^ 32

theorem isScalar_iff : form.shape.isScalar = true ↔ form.elementCount? = none := by
  rw [Shape.isScalar, Bool.not_eq_true', elementCount?_eq_none_iff]

theorem toNat_componentCount (hs : form.Countable) (hc : form.elementCount? = some n) :
    form.shape.componentCount.toNat = n := by
  cases form with
  | vector element lanes | array element length => exact Option.some.inj hc
  | struct fields =>
    cases hc
    exact UInt32.toNat_ofNat_of_lt' (hs fields rfl)
  | _ => cases hc

theorem element?_isSome_iff : (form.element? i).isSome = true ↔
    form.shape.isAggregate = true ∧ ∃ n, form.elementCount? = some n ∧ i < n := by
  cases form with
  | vector element lanes | array element length =>
    simp [element?, elementCount?, shape, Shape.isAggregate, Option.isSome_ite]
  | struct fields => simp [element?, elementCount?, shape, Shape.isAggregate]
  | _ => simp [element?, elementCount?]

end TypeForm

/-! ## The search through the lanes -/

namespace View

variable {V T : Type} {view : View V T} {v : V} {missing : Query Bool}

/-- The search through the lanes, with what is answered at a lane without an element. -/
def lanesSetOr (view : View V T) (missing : Query Bool) (v : V) : Nat → Nat → Query Bool
  | _, 0 => return true
  | lane, n + 1 => do
    match ← view.aggregateElement v lane with
    | none => missing
    | some element =>
      if ← view.bitsSet element then view.lanesSetOr missing v (lane + 1) n
      else return false

/-- The question for a mask, with what is answered at a lane without an element. -/
def hasAllSetOr (view : View V T) (missing : Query Bool) (v : V) : Query Bool := do
  if ← view.isConstant v then
    let shape ← view.valueShape v
    if shape.isScalar then view.bitsSet v
    else if (← view.kind v) = .constantAggregate ∧ shape.isVector then
      view.lanesSetOr missing v 0 shape.componentCount.toNat
    else Query.fail .notAMask
  else return false

theorem lanesSetOr_false (v : V) (lane n : Nat) :
    view.lanesSetOr (return false) v lane n = view.lanesSet v lane n := by
  induction n generalizing lane with
  | zero => rfl
  | succ n ih =>
    rw [lanesSetOr, lanesSet]
    refine bind_congr fun element => ?_
    cases element with
    | none => rfl
    | some element => exact bind_congr fun set => by rw [ih]

/-- A lane without an element counts as one that is not all ones. -/
theorem hasAllSetOr_false (v : V) : view.hasAllSetOr (return false) v = view.hasAllSet v := by
  rw [hasAllSetOr, hasAllSet]
  simp only [lanesSetOr_false]

theorem lanesSetOr_eq {lane n : Nat}
    (h : ∀ i, lane ≤ i → i < lane + n → ∃ e, view.aggregateElement v i = .ok (some e)) :
    view.lanesSetOr missing v lane n = view.lanesSet v lane n := by
  induction n generalizing lane with
  | zero => rfl
  | succ n ih =>
    obtain ⟨element, he⟩ := h lane (Nat.le_refl _) (by omega)
    have hrest : view.lanesSetOr missing v (lane + 1) n = view.lanesSet v (lane + 1) n :=
      ih fun i hi hn => h i (by omega) (by omega)
    rw [lanesSetOr, lanesSet, he, hrest]
    rfl

theorem hasAllSetOr_eq {kind : Kind} {shape : Shape T} (hk : view.kind v = .ok kind)
    (hs : view.valueShape v = .ok shape) : view.hasAllSetOr missing v =
      if kind.isConstant then
        if shape.isScalar then view.bitsSet v
        else if kind = .constantAggregate ∧ shape.isVector then
          view.lanesSetOr missing v 0 shape.componentCount.toNat
        else Query.fail .notAMask
      else return false := by
  rw [hasAllSetOr, isConstant, hk, hs]
  rfl

end View

/-! ## Graphs -/

namespace Graph

variable {g : Graph} {v : ValueId} {node : Node} {t : TypeId} {form : TypeForm}

/-- How wide a type is, in elements and in components. -/
structure TypeWidth (g : Graph) (t : TypeId) (form : TypeForm) : Prop where
  isScalar : ∃ b, g.view.isScalar t = .ok b ∧ (b = true ↔ form.elementCount? = none)
  scalar : form.elementCount? = none → g.view.componentCount t = .ok 1
  aggregate : ∀ n, form.elementCount? = some n → ∃ count, g.view.componentCount t = .ok count ∧ count.toNat = n
  element : ∀ i, (form.element? i).isSome = true ↔
    form.shape.isAggregate = true ∧ ∃ n, form.elementCount? = some n ∧ i < n

/-- An aggregate constant is as wide as its type, element by element. -/
structure ValueWidth (g : Graph) (v : ValueId) (t : TypeId) (form : TypeForm) (count : UInt32) : Prop where
  componentCount : g.view.componentCount t = .ok count
  operandCount : g.view.operandCount v = .ok count.toNat
  element : ∀ i < count.toNat, ∃ e t', g.view.aggregateElement v i = .ok (some e) ∧
    form.element? i = some t' ∧ g.view.type e = .ok t'
  past : ∀ i, count.toNat ≤ i → g.view.aggregateElement v i = .ok none

theorem typeWidth (hf : g.types.form? t = some form) (hs : form.Countable) : g.TypeWidth t form where
  isScalar := ⟨_, isScalar_eq hf, TypeForm.isScalar_iff⟩
  scalar := by
    intro hc
    rw [componentCount_eq hf, Shape.componentCount_of_isScalar (TypeForm.isScalar_iff.2 hc)]
  aggregate := fun n hc => ⟨_, componentCount_eq hf, TypeForm.toNat_componentCount hs hc⟩
  element := fun i => TypeForm.element?_isSome_iff

theorem aggregateElement_eq {elements : Array ValueId} (hn : g.node? v = some node)
    (hc : node.content = .aggregate elements) (i : Nat) :
    g.view.aggregateElement v i = .ok elements.toList[i]? := by
  rw [(reads hn).aggregateElement, hc, Array.getElem?_toList]
  rfl

theorem WF.valueWidth (hw : g.WF) (hn : g.node? v = some node) (hf : g.types.form? node.type = some form)
    (hs : form.Countable) (hk : node.content.kind = .constantAggregate) :
    g.ValueWidth v node.type form form.shape.componentCount := by
  obtain ⟨elements, hc⟩ : ∃ elements, node.content = .aggregate elements := by
    cases hc : node.content with
    | aggregate elements => exact ⟨elements, rfl⟩
    | _ => rw [hc] at hk; cases hk
  obtain ⟨hcount, htyped⟩ := hw.fills hn hc hf
  have hwidth : form.shape.componentCount.toNat = elements.toList.length := TypeForm.toNat_componentCount hs hcount
  constructor
  case componentCount => exact componentCount_eq hf
  case operandCount =>
    rw [(reads hn).operandCount, hc, hwidth]
    rfl
  case element =>
    intro i hi
    rw [hwidth] at hi
    have he := List.getElem?_eq_getElem hi
    obtain ⟨m, hm, -, ht⟩ := htyped i _ he
    exact ⟨_, m.type, (aggregateElement_eq hn hc i).trans (congrArg _ he), ht, (reads hm).type⟩
  case past =>
    intro i hi
    rw [hwidth] at hi
    rw [aggregateElement_eq hn hc, List.getElem?_eq_none hi]

/-- What the search through lanes would answer where there is no element makes no difference. -/
theorem WF.hasAllSetOr_eq (hw : g.WF) (missing : Query Bool) (v : ValueId) :
    g.view.hasAllSetOr missing v = g.view.hasAllSet v := by
  cases hn : g.node? v with
  | none =>
    rw [View.hasAllSetOr, View.hasAllSet, isConstant_of_none hn]
    rfl
  | some node =>
    obtain ⟨form, hf⟩ := hw.exists_form hn
    rw [View.hasAllSetOr_eq (reads hn).kind (valueShape_eq hn hf),
      View.hasAllSet_eq (reads hn).kind (valueShape_eq hn hf)]
    by_cases hlanes : node.content.kind = .constantAggregate ∧ form.shape.isVector = true
    · obtain ⟨hk, hvec⟩ := hlanes
      -- the lanes of a vector can always be counted
      have hs : form.Countable := by
        rintro fields rfl
        cases hvec
      have hwidth := hw.valueWidth hn hf hs hk
      have hlane : g.view.lanesSetOr missing v 0 form.shape.componentCount.toNat =
          g.view.lanesSet v 0 form.shape.componentCount.toNat := by
        refine View.lanesSetOr_eq fun i _ hi => ?_
        obtain ⟨e, -, he, -⟩ := hwidth.element i (by omega)
        exact ⟨e, he⟩
      rw [hlane]
    · rw [if_neg hlanes, if_neg hlanes]

/-- All ways of telling how wide a type is agree, and an aggregate constant has an element for each component of its
type. -/
theorem widths_agree (h : g.Reachable) :
    (∀ t form, g.types.form? t = some form → form.Countable → g.TypeWidth t form ∧
      ∀ v node, g.node? v = some node → node.type = t → node.content.kind = .constantAggregate →
        ∃ count, g.ValueWidth v t form count) ∧
    ∀ missing v, g.view.hasAllSetOr missing v = g.view.hasAllSet v := by
  refine ⟨fun t form hf hs => ⟨typeWidth hf hs, ?_⟩, h.wf.hasAllSetOr_eq⟩
  rintro v node hn rfl hk
  exact ⟨_, h.wf.valueWidth hn hf hs hk⟩

/-- The struct of the sample, its constant, and the vector among its elements. -/
theorem widths_agree_sample : sample.Reachable ∧ sample.types.form? ⟨3⟩ = some (.struct [⟨0⟩, ⟨2⟩]) ∧
    (TypeForm.struct [⟨0⟩, ⟨2⟩]).Countable ∧
    sample.node? ⟨3⟩ = some { type := ⟨3⟩, content := .aggregate #[⟨0⟩, ⟨2⟩] } ∧
    sample.TypeWidth ⟨3⟩ (.struct [⟨0⟩, ⟨2⟩]) ∧ sample.ValueWidth ⟨3⟩ ⟨3⟩ (.struct [⟨0⟩, ⟨2⟩]) 2 ∧
    sample.view.hasAllSetOr (Query.fail .danglingValue) ⟨2⟩ = sample.view.hasAllSet ⟨2⟩ := by
  have hf : sample.types.form? ⟨3⟩ = some (.struct [⟨0⟩, ⟨2⟩]) := by decide +kernel
  have hs : (TypeForm.struct [⟨0⟩, ⟨2⟩]).Countable := by
    rintro fields ⟨⟩
    decide
  have hn : sample.node? ⟨3⟩ = some { type := ⟨3⟩, content := .aggregate #[⟨0⟩, ⟨2⟩] } := by decide +kernel
  obtain ⟨htypes, hmissing⟩ := widths_agree sample_reachable
  obtain ⟨htype, hvalues⟩ := htypes _ _ hf hs
  obtain ⟨count, hvalue⟩ := hvalues _ _ hn rfl rfl
  have hcount : count = 2 := by
    have htwo : sample.view.componentCount ⟨3⟩ = .ok 2 := by decide +kernel
    exact Except.ok.inj (hvalue.componentCount.symm.trans htwo)
  subst hcount
  exact ⟨sample_reachable, hf, hs, hn, htype, hvalue, hmissing _ _⟩

end Graph

end Lanewise
