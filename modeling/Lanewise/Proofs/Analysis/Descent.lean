/-
The descent from values of aggregate type to their operands, which the definedness walks follow. Both walks are
their own continuation at every value (`allDefined_eq`, `allUndefinedDeep_eq`): the bound on their depth is never
felt.
-/
import Lanewise.Analysis.Definedness
import Lanewise.Proofs.Analysis.Walk

namespace Lanewise.View

variable {V W T U : Type}

/-! ## The descent -/

/-- A step of the descent: from a value of aggregate type to any of its operands. -/
def Descends (view : View V T) (v w : V) : Prop :=
  ∃ shape s, view.valueShape v = .ok shape ∧ shape.isAggregate = true ∧ view.operands v = .ok s ∧ s.Holds w

/-- The values that the descent from a value reaches, the value itself included. -/
def Reaches (view : View V T) : V → V → Prop :=
  Relation.ReflTransGen view.Descends

/-- No value that the descent reaches is come back to by going on. -/
def Acyclic (view : View V T) (v : V) : Prop :=
  ∀ u, view.Reaches v u → ¬ Relation.TransGen view.Descends u u

theorem Acyclic.of_reaches {view : View V T} {v w : V} (h : view.Acyclic v) (hr : view.Reaches v w) :
    view.Acyclic w :=
  fun u hu => h u (hr.trans hu)

/-! ## The walks as walks -/

/-- What a walk finds at a value: an undefined one settles the answer, and a scalar settles the opposite; at
an aggregate `aggregate` says how to go on. -/
def visit (view : View V T) (undefined : Bool) (aggregate : V → Except Fault (Visit V)) (v : V) :
    Except Fault (Visit V) := do
  if ← view.isUndef v then return .settled undefined
  else if (← view.valueShape v).isAggregate then aggregate v
  else return .settled !undefined

/-- The operands of an aggregate must all be asked. -/
def allOperands (view : View V T) (v : V) : Except Fault (Visit V) := do
  return .descend (← view.operands v)

/-- The operands of an aggregate must all be asked, and there must be one. -/
def someOperands (view : View V T) (v : V) : Except Fault (Visit V) := do
  if (← view.operandCount v) = 0 then return .settled false
  else view.allOperands v

/-- What the walk for anything undefined finds at a value. -/
def visitDefined (view : View V T) : V → Except Fault (Visit V) :=
  view.visit false view.allOperands

/-- What the walk for anything that is not undefined finds at a value. -/
def visitUndefined (view : View V T) : V → Except Fault (Visit V) :=
  view.visit true view.someOperands

variable {view : View V T} {v : V}

theorem visit_bind {α : Type} (undefined : Bool) (aggregate : V → Except Fault (Visit V))
    (next : Visit V → Except Fault α) : view.visit undefined aggregate v >>= next = (do
      if ← view.isUndef v then next (.settled undefined)
      else if (← view.valueShape v).isAggregate then aggregate v >>= next
      else next (.settled !undefined)) := by
  rw [visit]
  rcases view.isUndef v with f | _ | _
  · rfl
  · rcases view.valueShape v with f | shape
    · rfl
    · show (if shape.isAggregate = true then _ else _) >>= _ = if shape.isAggregate = true then _ else _
      by_cases ha : shape.isAggregate = true
      · rw [if_pos ha, if_pos ha]
      · rw [if_neg ha, if_neg ha]
        rfl
  · rfl

theorem allOperands_bind {α : Type} (next : Visit V → Except Fault α) :
    view.allOperands v >>= next = view.operands v >>= fun s => next (.descend s) := by
  rw [allOperands, bind_assoc]
  rfl

theorem someOperands_bind {α : Type} (next : Visit V → Except Fault α) :
    view.someOperands v >>= next = (do
      if (← view.operandCount v) = 0 then next (.settled false)
      else view.operands v >>= fun s => next (.descend s)) := by
  rw [someOperands]
  rcases view.operandCount v with f | _ | n
  · rfl
  · rfl
  · exact allOperands_bind next

theorem mem_values_of_visit {undefined : Bool} {aggregate : V → Except Fault (Visit V)} {s : Scan V}
    (h : view.visit undefined aggregate v = .ok (.descend s)) : v ∈ view.values := by
  unfold visit isUndef at h
  cases hk : view.kind v with
  | error f => rw [hk] at h; cases h
  | ok k => exact view.mem_values v k hk

theorem allDefinedWithin_eq_walk (d : Nat) : view.allDefinedWithin d = walk view.visitDefined d := by
  induction d with
  | zero => rfl
  | succ d ih =>
    funext v
    rw [walk, visitDefined, visit_bind, allDefinedWithin, ih]
    simp only [allOperands_bind]
    rfl

theorem allUndefinedDeepWithin_eq_walk (d : Nat) :
    view.allUndefinedDeepWithin d = walk view.visitUndefined d := by
  induction d with
  | zero => rfl
  | succ d ih =>
    funext v
    rw [walk, visitUndefined, visit_bind, allUndefinedDeepWithin, ih]
    simp only [someOperands_bind]
    rfl

/-! ## The walks as recursions -/

theorem mem_values_of_visitDefined (v : V) (s : Scan V) (h : view.visitDefined v = .ok (.descend s)) :
    v ∈ view.values :=
  mem_values_of_visit h

theorem mem_values_of_visitUndefined (v : V) (s : Scan V) (h : view.visitUndefined v = .ok (.descend s)) :
    v ∈ view.values :=
  mem_values_of_visit h

theorem allDefined_eq_walk {d : Nat} (hd : view.values.length < d) (v : V) :
    view.allDefined v = walk view.visitDefined d v := by
  rw [allDefined, allDefinedWithin_eq_walk]
  exact walk_stable mem_values_of_visitDefined (Nat.lt_succ_self _) hd v

theorem allUndefinedDeep_eq_walk {d : Nat} (hd : view.values.length < d) (v : V) :
    view.allUndefinedDeep v = walk view.visitUndefined d v := by
  rw [allUndefinedDeep, allUndefinedDeepWithin_eq_walk]
  exact walk_stable mem_values_of_visitUndefined (Nat.lt_succ_self _) hd v

/-- The walk for anything undefined asks each operand the question it was asked. -/
theorem allDefined_eq (view : View V T) (v : V) :
    view.allDefined v = view.visitDefined v >>= Visit.resolve view.allDefined := by
  have hw := walk_eq (view.mem_values_of_visitDefined) v
  rw [← allDefinedWithin_eq_walk] at hw
  exact hw

theorem allUndefinedDeep_eq (view : View V T) (v : V) :
    view.allUndefinedDeep v = view.visitUndefined v >>= Visit.resolve view.allUndefinedDeep := by
  have hw := walk_eq (view.mem_values_of_visitUndefined) v
  rw [← allUndefinedDeepWithin_eq_walk] at hw
  exact hw

/-! ## IRs that are alike -/

/-- The descents of two IRs are alike at related values. -/
structure DescentAlike (a : View V T) (b : View W U) (R : V → W → Prop) : Prop where
  isUndef : ∀ v w, R v w → a.isUndef v = b.isUndef w
  operandCount : ∀ v w, R v w → a.operandCount v = b.operandCount w
  shape : ∀ v w, R v w →
    ReadAlike (fun s s' => s.isAggregate = s'.isAggregate) (a.valueShape v) (b.valueShape w)
  operands : ∀ v w shape, R v w → a.valueShape v = .ok shape → shape.isAggregate = true →
    ReadAlike (Scan.Alike R) (a.operands v) (b.operands w)

namespace DescentAlike

variable {a : View V T} {b : View W U} {R : V → W → Prop} {w : W}

theorem visit (h : DescentAlike a b R) (hr : R v w) {undefined : Bool}
    {aggregate : V → Except Fault (Visit V)} {aggregate' : W → Except Fault (Visit W)}
    (hagg : ∀ shape, a.valueShape v = .ok shape → shape.isAggregate = true →
      ReadAlike (Visit.Alike R) (aggregate v) (aggregate' w)) :
    ReadAlike (Visit.Alike R) (a.visit undefined aggregate v) (b.visit undefined aggregate' w) := by
  refine ReadAlike.bind (.of_eq (h.isUndef v w hr)) ?_
  rintro undef _ - rfl
  cases undef with
  | true => exact .ok (.settled undefined)
  | false =>
    refine ReadAlike.bind (h.shape v w hr) fun s s' hs he => ?_
    rw [← he]
    by_cases ha : s.isAggregate = true
    · rw [if_pos ha, if_pos ha]
      exact hagg s hs ha
    · rw [if_neg ha, if_neg ha]
      exact .ok (.settled !undefined)

theorem allOperands (h : DescentAlike a b R) (hr : R v w) {shape : Shape T}
    (hs : a.valueShape v = .ok shape) (ha : shape.isAggregate = true) :
    ReadAlike (Visit.Alike R) (a.allOperands v) (b.allOperands w) :=
  ReadAlike.bind (h.operands v w shape hr hs ha) fun _ _ _ hx => .ok (.descend hx)

theorem someOperands (h : DescentAlike a b R) (hr : R v w) {shape : Shape T}
    (hs : a.valueShape v = .ok shape) (ha : shape.isAggregate = true) :
    ReadAlike (Visit.Alike R) (a.someOperands v) (b.someOperands w) := by
  refine ReadAlike.bind (.of_eq (h.operandCount v w hr)) ?_
  rintro count _ - rfl
  by_cases hc : count = 0
  · rw [if_pos hc, if_pos hc]
    exact .ok (.settled false)
  · rw [if_neg hc, if_neg hc]
    exact h.allOperands hr hs ha

theorem allDefined_eq (h : DescentAlike a b R) (hr : R v w) : a.allDefined v = b.allDefined w := by
  -- at the sum of the two bounds both walks are deep enough
  have hd : a.values.length < a.values.length + b.values.length + 1 := by omega
  have hd' : b.values.length < a.values.length + b.values.length + 1 := by omega
  rw [allDefined_eq_walk hd, allDefined_eq_walk hd']
  exact walk_congr (fun v w hr => h.visit hr fun _ => h.allOperands hr) _ hr

theorem allUndefinedDeep_eq (h : DescentAlike a b R) (hr : R v w) :
    a.allUndefinedDeep v = b.allUndefinedDeep w := by
  have hd : a.values.length < a.values.length + b.values.length + 1 := by omega
  have hd' : b.values.length < a.values.length + b.values.length + 1 := by omega
  rw [allUndefinedDeep_eq_walk hd, allUndefinedDeep_eq_walk hd']
  exact walk_congr (fun v w hr => h.visit hr fun _ => h.someOperands hr) _ hr

end DescentAlike

end Lanewise.View
