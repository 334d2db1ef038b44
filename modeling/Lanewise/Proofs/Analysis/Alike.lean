/-
IRs that say the same of related values, so that every analysis answers alike. They may differ in operands other
than the elements of aggregates and the sources of casts, unless a walk descends to them.
-/
import Lanewise.Analysis.Inquiry
import Lanewise.Analysis.Profile
import Lanewise.Proofs.Analysis.Descent

namespace Lanewise

variable {V W T U : Type}

/-! ## What an inquiry is about -/

namespace Inquiry

def values : Inquiry V T → List V
  | .isScalar _ | .componentCount _ => []
  | .collectIndices chain => chain
  | .isUndef v | .isConstant v | .valueComponentCount v | .constantInt v | .constantFloat v | .constantDouble v
  | .allDefined v | .allUndefined v | .allUndefinedDeep v | .fullyUndefined _ v | .hasAllSet v
  | .isPerComponentInstruction v | .isPerComponentOperation v => [v]

def types : Inquiry V T → List T
  | .isScalar t | .componentCount t => [t]
  | _ => []

/-- The value that an inquiry descends from, if it walks. -/
def start? : Inquiry V T → Option V
  | .allDefined v | .allUndefinedDeep v | .fullyUndefined .recursive v => some v
  | _ => none

def map (e : V → W) (f : T → U) : Inquiry V T → Inquiry W U
  | .isUndef v => .isUndef (e v)
  | .isConstant v => .isConstant (e v)
  | .isScalar t => .isScalar (f t)
  | .componentCount t => .componentCount (f t)
  | .valueComponentCount v => .valueComponentCount (e v)
  | .constantInt v => .constantInt (e v)
  | .constantFloat v => .constantFloat (e v)
  | .constantDouble v => .constantDouble (e v)
  | .allDefined v => .allDefined (e v)
  | .allUndefined v => .allUndefined (e v)
  | .allUndefinedDeep v => .allUndefinedDeep (e v)
  | .fullyUndefined check v => .fullyUndefined check (e v)
  | .hasAllSet v => .hasAllSet (e v)
  | .isPerComponentInstruction v => .isPerComponentInstruction (e v)
  | .isPerComponentOperation v => .isPerComponentOperation (e v)
  | .collectIndices chain => .collectIndices (chain.map e)

@[simp] theorem values_map (e : V → W) (f : T → U) (q : Inquiry V T) : (q.map e f).values = q.values.map e := by
  cases q <;> rfl

@[simp] theorem types_map (e : V → W) (f : T → U) (q : Inquiry V T) : (q.map e f).types = q.types.map f := by
  cases q <;> rfl

@[simp] theorem start?_map (e : V → W) (f : T → U) (q : Inquiry V T) : (q.map e f).start? = q.start?.map e := by
  cases q with
  | fullyUndefined check => cases check <;> rfl
  | _ => rfl

theorem map_map {X Y : Type} (e : V → W) (f : T → U) (e' : W → X) (f' : U → Y) (q : Inquiry V T) :
    (q.map e f).map e' f' = q.map (e' ∘ e) (f' ∘ f) := by
  cases q with
  | collectIndices chain => exact congrArg collectIndices List.map_map
  | _ => rfl

theorem map_id (q : Inquiry V T) : q.map id id = q := by
  cases q with
  | collectIndices chain => exact congrArg collectIndices (List.map_id chain)
  | _ => rfl

theorem mem_values_of_start? {q : Inquiry V T} {v : V} (h : q.start? = some v) : v ∈ q.values := by
  cases q with
  | allDefined | allUndefinedDeep =>
    cases h
    exact List.mem_singleton_self v
  | fullyUndefined check =>
    cases check with
    | topLevel => cases h
    | recursive =>
      cases h
      exact List.mem_singleton_self v
  | _ => cases h

end Inquiry

/-! ## Shapes -/

/-- The shapes are the same but for the names of the element types. -/
def Shape.Alike (s : Shape T) (s' : Shape U) : Prop :=
  s.map (fun _ => ()) = s'.map (fun _ => ())

namespace Shape.Alike

variable {s : Shape T} {s' : Shape U}

theorem isAggregate_eq (h : s.Alike s') : s.isAggregate = s'.isAggregate := by
  rw [← isAggregate_map (fun _ => ()) s, h, isAggregate_map]

theorem isScalar_eq (h : s.Alike s') : s.isScalar = s'.isScalar := by
  rw [isScalar, isScalar, h.isAggregate_eq]

theorem isVector_eq (h : s.Alike s') : s.isVector = s'.isVector := by
  cases s <;> cases s' <;> first | rfl | cases h

theorem componentCount_eq (h : s.Alike s') : s.componentCount = s'.componentCount := by
  rw [← componentCount_map (fun _ => ()) s, h, componentCount_map]

end Shape.Alike

theorem ReadAlike.query_bind_eq {α β γ : Type} {R : α → β → Prop} {x : Except Fault α} {y : Except Fault β}
    {f : α → Query γ} {g : β → Query γ} (h : ReadAlike R x y) (hfg : ∀ a b, x = .ok a → R a b → f a = g b) :
    (liftM x : Query α) >>= f = (liftM y : Query β) >>= g := by
  cases h with
  | fault e => rfl
  | ok hr => exact hfg _ _ rfl hr

namespace View

theorem valueComponentCount_eq_bind (view : View V T) (v : V) :
    view.valueComponentCount v = view.valueShape v >>= fun s => .ok s.componentCount := by
  rw [valueComponentCount, valueShape, bind_assoc]
  rfl

/-- The IRs say the same of related values, and have related elements and cast sources there. -/
structure Alike (a : View V T) (b : View W U) (R : V → W → Prop) : Prop where
  kind : ∀ v w, R v w → a.kind v = b.kind w
  shape : ∀ v w, R v w → ReadAlike Shape.Alike (a.valueShape v) (b.valueShape w)
  intLiteral : ∀ v w, R v w → a.intLiteral v = b.intLiteral w
  floatLiteral : ∀ v w, R v w → a.floatLiteral v = b.floatLiteral w
  opcode : ∀ v w, R v w → a.opcode v = b.opcode w
  intrinsic : ∀ v w, R v w → a.intrinsic v = b.intrinsic w
  aggregateElement : ∀ v w i, R v w → ReadAlike (Option.Rel R) (a.aggregateElement v i) (b.aggregateElement w i)
  castSource : ∀ v w opcode, R v w → a.opcode v = .ok (some opcode) → opcode.isCast = true →
    ReadAlike (Option.Rel R) (a.operand v 0) (b.operand w 0)

namespace Alike

variable {a : View V T} {b : View W U} {R : V → W → Prop} {v : V} {w : W}

theorem isUndef_eq (h : a.Alike b R) (hr : R v w) : a.isUndef v = b.isUndef w := by
  rw [isUndef, isUndef, h.kind v w hr]

theorem isConstant_eq (h : a.Alike b R) (hr : R v w) : a.isConstant v = b.isConstant w := by
  rw [isConstant, isConstant, h.kind v w hr]

theorem valueComponentCount_eq (h : a.Alike b R) (hr : R v w) :
    a.valueComponentCount v = b.valueComponentCount w := by
  rw [valueComponentCount_eq_bind, valueComponentCount_eq_bind]
  exact (h.shape v w hr).bind_eq fun s s' hs => congrArg Except.ok hs.componentCount_eq

theorem constantInt_eq (h : a.Alike b R) (hr : R v w) : a.constantInt v = b.constantInt w := by
  rw [constantInt, constantInt, h.intLiteral v w hr]

theorem constantFloat_eq (h : a.Alike b R) (hr : R v w) : a.constantFloat v = b.constantFloat w := by
  rw [constantFloat, constantFloat, h.floatLiteral v w hr]

theorem constantDouble_eq (h : a.Alike b R) (hr : R v w) : a.constantDouble v = b.constantDouble w := by
  rw [constantDouble, constantDouble, h.floatLiteral v w hr]

/-! ## Descents -/

theorem descentAlike {S : V → W → Prop} (h : a.Alike b R) (hs : ∀ v w, S v w → R v w)
    (hcount : ∀ v w, S v w → a.operandCount v = b.operandCount w)
    (hops : ∀ v w shape, S v w → a.valueShape v = .ok shape → shape.isAggregate = true →
      ReadAlike (Scan.Alike S) (a.operands v) (b.operands w)) : DescentAlike a b S where
  isUndef v w hr := h.isUndef_eq (hs v w hr)
  operandCount := hcount
  shape v w hr := (h.shape v w (hs v w hr)).imp fun _ _ hshape => hshape.isAggregate_eq
  operands := hops

/-! ## Masks -/

theorem bitsSet_eq (h : a.Alike b R) (hr : R v w) : a.bitsSet v = b.bitsSet w := by
  rw [bitsSet, bitsSet, h.constantInt_eq hr]

theorem lanesSet_eq (h : a.Alike b R) (hr : R v w) (lane n : Nat) : a.lanesSet v lane n = b.lanesSet w lane n := by
  induction n generalizing lane with
  | zero => rfl
  | succ n ih =>
    refine (h.aggregateElement v w lane hr).query_bind_eq fun _ _ _ he => ?_
    cases he with
    | none => rfl
    | @some e e' he =>
      show (a.bitsSet e >>= fun set => if set = true then a.lanesSet v (lane + 1) n else return false) =
        b.bitsSet e' >>= fun set => if set = true then b.lanesSet w (lane + 1) n else return false
      rw [h.bitsSet_eq he, ih]

theorem hasAllSet_eq (h : a.Alike b R) (hr : R v w) : a.hasAllSet v = b.hasAllSet w := by
  rw [hasAllSet, hasAllSet, h.isConstant_eq hr, h.kind v w hr]
  congr 1
  funext constant
  cases constant with
  | false => rfl
  | true =>
    refine (h.shape v w hr).query_bind_eq fun s s' _ hs => ?_
    rw [hs.isScalar_eq, hs.isVector_eq, hs.componentCount_eq, h.bitsSet_eq hr, h.lanesSet_eq hr]

/-! ## Operations by lane -/

theorem castKeepsLanes_eq (h : a.Alike b R) (hr : R v w) {opcode : Opcode}
    (ho : a.opcode v = .ok (some opcode)) (hc : opcode.isCast = true) :
    a.castKeepsLanes v opcode = b.castKeepsLanes w opcode := by
  refine (h.castSource v w opcode hr ho hc).query_bind_eq fun _ _ _ hu => ?_
  cases hu with
  | none => rfl
  | some hu =>
    show (liftM (a.valueComponentCount _) >>= fun before => liftM (a.valueComponentCount v) >>= _ : Query Bool) = _
    rw [h.valueComponentCount_eq hu, h.valueComponentCount_eq hr]

theorem isPerComponentInstruction_eq (h : a.Alike b R) (hr : R v w) :
    a.isPerComponentInstruction v = b.isPerComponentInstruction w := by
  rw [isPerComponentInstruction, isPerComponentInstruction, h.intrinsic v w hr]
  congr 1
  funext intrinsic
  cases intrinsic with
  | some intrinsic => rfl
  | none =>
    refine (ReadAlike.of_eq (h.opcode v w hr)).query_bind_eq fun opcode _ ho he => ?_
    subst he
    cases opcode with
    | none => rfl
    | some opcode =>
      by_cases hc : opcode.isCast = true
      · show (if opcode.isTerminator = true then _ else if opcode.isCast = true then _ else _ : Query Bool) = _
        rw [h.castKeepsLanes_eq hr ho hc]
      · show (if opcode.isTerminator = true then _ else if opcode.isCast = true then _ else _ : Query Bool) =
          if opcode.isTerminator = true then _ else if opcode.isCast = true then _ else _
        rw [if_neg hc, if_neg hc]

theorem isPerComponentOperation_eq (h : a.Alike b R) (hr : R v w) :
    a.isPerComponentOperation v = b.isPerComponentOperation w := by
  rw [isPerComponentOperation, isPerComponentOperation, h.kind v w hr, h.isPerComponentInstruction_eq hr]

/-! ## Chains -/

theorem convertFrom_eq (h : a.Alike b R) {chain : List V} {chain' : List W} (hc : List.Forall₂ R chain chain')
    (position : Nat) (out : List UInt32) : a.convertFrom position chain out = b.convertFrom position chain' out := by
  induction hc generalizing position out with
  | nil => rfl
  | cons hr _ ih =>
    rw [convertFrom, convertFrom, h.intLiteral _ _ hr]
    simp only [ih]

theorem convertIndices_eq (h : a.Alike b R) {chain : List V} {chain' : List W} (hc : List.Forall₂ R chain chain')
    (out : List UInt32) : a.convertIndices chain out = b.convertIndices chain' out :=
  h.convertFrom_eq hc 0 out

theorem collectIndices_eq (h : a.Alike b R) {chain : List V} {chain' : List W} (hc : List.Forall₂ R chain chain') :
    a.collectIndices chain = b.collectIndices chain' := by
  rw [collectIndices, collectIndices, hc.length_eq, h.convertIndices_eq hc]

/-! ## Profiles and inquiries -/

theorem profile_eq (h : a.Alike b R) (hr : R v w) (hd : a.allDefined v = b.allDefined w)
    (hu : a.allUndefinedDeep v = b.allUndefinedDeep w) : a.profile v = b.profile w := by
  rw [profile, profile, h.constantInt_eq hr, h.constantFloat_eq hr, h.constantDouble_eq hr, h.hasAllSet_eq hr,
    h.isPerComponentInstruction_eq hr, h.isPerComponentOperation_eq hr, h.isConstant_eq hr,
    h.valueComponentCount_eq hr, allUndefined, allUndefined, h.isUndef_eq hr, hd, hu]

theorem isScalar_eq {t : T} {u : U} (h : ReadAlike Shape.Alike (a.shape t) (b.shape u)) :
    a.isScalar t = b.isScalar u :=
  h.bind_eq fun _ _ hs => congrArg Except.ok hs.isScalar_eq

theorem componentCount_eq {t : T} {u : U} (h : ReadAlike Shape.Alike (a.shape t) (b.shape u)) :
    a.componentCount t = b.componentCount u :=
  h.bind_eq fun _ _ hs => congrArg Except.ok hs.componentCount_eq

/-- An inquiry about pairs, asked of each IR about its parts, is answered alike. -/
theorem ask_map_eq (h : a.Alike b R) {q : Inquiry (V × W) (T × U)} (hv : ∀ p ∈ q.values, R p.1 p.2)
    (ht : ∀ p ∈ q.types, ReadAlike Shape.Alike (a.shape p.1) (b.shape p.2))
    (hw : ∀ p, q.start? = some p →
      a.allDefined p.1 = b.allDefined p.2 ∧ a.allUndefinedDeep p.1 = b.allUndefinedDeep p.2) :
    (q.map Prod.fst Prod.fst).ask a = (q.map Prod.snd Prod.snd).ask b := by
  cases q with
  | isScalar p =>
    rw [Inquiry.map, Inquiry.map, Inquiry.ask, Inquiry.ask, isScalar_eq (ht p (List.mem_singleton_self p))]
  | componentCount p =>
    rw [Inquiry.map, Inquiry.map, Inquiry.ask, Inquiry.ask, componentCount_eq (ht p (List.mem_singleton_self p))]
  | isUndef p =>
    rw [Inquiry.map, Inquiry.map, Inquiry.ask, Inquiry.ask, h.isUndef_eq (hv p (List.mem_singleton_self p))]
  | isConstant p =>
    rw [Inquiry.map, Inquiry.map, Inquiry.ask, Inquiry.ask, h.isConstant_eq (hv p (List.mem_singleton_self p))]
  | valueComponentCount p =>
    rw [Inquiry.map, Inquiry.map, Inquiry.ask, Inquiry.ask, h.valueComponentCount_eq (hv p (List.mem_singleton_self p))]
  | constantInt p =>
    rw [Inquiry.map, Inquiry.map, Inquiry.ask, Inquiry.ask, h.constantInt_eq (hv p (List.mem_singleton_self p))]
  | constantFloat p =>
    rw [Inquiry.map, Inquiry.map, Inquiry.ask, Inquiry.ask, h.constantFloat_eq (hv p (List.mem_singleton_self p))]
  | constantDouble p =>
    rw [Inquiry.map, Inquiry.map, Inquiry.ask, Inquiry.ask, h.constantDouble_eq (hv p (List.mem_singleton_self p))]
  | allDefined p => rw [Inquiry.map, Inquiry.map, Inquiry.ask, Inquiry.ask, (hw p rfl).1]
  | allUndefined p =>
    have hu : a.allUndefined p.1 = b.allUndefined p.2 := h.isUndef_eq (hv p (List.mem_singleton_self p))
    rw [Inquiry.map, Inquiry.map, Inquiry.ask, Inquiry.ask, hu]
  | allUndefinedDeep p => rw [Inquiry.map, Inquiry.map, Inquiry.ask, Inquiry.ask, (hw p rfl).2]
  | fullyUndefined check p =>
    rw [Inquiry.map, Inquiry.map, Inquiry.ask, Inquiry.ask]
    cases check with
    | topLevel =>
      have hu : a.allUndefined p.1 = b.allUndefined p.2 := h.isUndef_eq (hv p (List.mem_singleton_self p))
      rw [fullyUndefined, fullyUndefined, hu]
    | recursive => rw [fullyUndefined, fullyUndefined, (hw p rfl).2]
  | hasAllSet p =>
    rw [Inquiry.map, Inquiry.map, Inquiry.ask, Inquiry.ask, h.hasAllSet_eq (hv p (List.mem_singleton_self p))]
  | isPerComponentInstruction p =>
    have hi := h.isPerComponentInstruction_eq (hv p (List.mem_singleton_self p))
    rw [Inquiry.map, Inquiry.map, Inquiry.ask, Inquiry.ask, hi]
  | isPerComponentOperation p =>
    have ho := h.isPerComponentOperation_eq (hv p (List.mem_singleton_self p))
    rw [Inquiry.map, Inquiry.map, Inquiry.ask, Inquiry.ask, ho]
  | collectIndices chain =>
    have hc : List.Forall₂ R (chain.map Prod.fst) (chain.map Prod.snd) := by
      rw [List.forall₂_map_left_iff, List.forall₂_map_right_iff]
      exact List.forall₂_same.2 hv
    rw [Inquiry.map, Inquiry.map, Inquiry.ask, Inquiry.ask, h.collectIndices_eq hc]

/-- An inquiry is answered alike if the values and types that it names are. -/
theorem ask_eq {a b : View V T} {R : V → V → Prop} (h : a.Alike b R) {q : Inquiry V T} (hv : ∀ v ∈ q.values, R v v)
    (ht : ∀ t ∈ q.types, a.shape t = b.shape t)
    (hw : ∀ v, q.start? = some v → a.allDefined v = b.allDefined v ∧ a.allUndefinedDeep v = b.allUndefinedDeep v) :
    q.ask a = q.ask b := by
  -- the inquiry about each value and type paired with itself
  have hask := h.ask_map_eq (q := q.map (fun v => (v, v)) fun t => (t, t)) (by simpa using hv) (fun p hp => ?_)
    fun p hp => ?_
  · rw [Inquiry.map_map, Inquiry.map_map] at hask
    exact (q.map_id ▸ hask :)
  · rw [Inquiry.types_map, List.mem_map] at hp
    obtain ⟨t, hm, rfl⟩ := hp
    exact (ReadAlike.of_eq (ht t hm)).imp fun _ _ he => congrArg (Shape.map fun _ => ()) he
  · rw [Inquiry.start?_map, Option.map_eq_some_iff] at hp
    obtain ⟨v, hs, rfl⟩ := hp
    exact hw v hs

end Alike

end View

end Lanewise
