/-
The analyses do not depend on how an IR is represented. Where two IRs resemble each other under a relation of
their values, all analyses of related values answer alike, with the same diagnostics or the same fault
(`answers_alike`). Nothing asks the reads of one value to be consistent. An IR with other names for its values and
types is a case of this.
-/
import Lanewise.Proofs.Analysis.Mask
import Lanewise.Proofs.View.Minimal
import Lanewise.View.Table
import Mathlib.Logic.Equiv.Basic

namespace Lanewise

variable {V W T U : Type}

/-! ## Operands by position -/

theorem Scan.Alike.ofPositions {R : V → W → Prop} {value : Nat → Except Fault (Option V)}
    {value' : Nat → Except Fault (Option W)} (h : ∀ i, ReadAlike (Option.Rel R) (value i) (value' i)) (i n : Nat) :
    Scan.Alike R (.ofPositions value i n) (.ofPositions value' i n) := by
  induction n generalizing i with
  | zero => exact .done
  | succ n ih =>
    have hi := h i
    rw [Scan.ofPositions, Scan.ofPositions]
    generalize value i = x at hi ⊢
    generalize value' i = y at hi ⊢
    cases hi with
    | fault f => exact .fault f
    | ok ho =>
      cases ho with
      | none => exact ih (i + 1)
      | some hr => exact .next hr (ih (i + 1))

theorem Scan.holds_of_toList {s : Scan V} {vs : List V} (h : s.toList = .ok vs) {v : V} (hv : v ∈ vs) :
    s.Holds v := by
  induction s generalizing vs with
  | done => cases h; cases hv
  | fault f => cases h
  | next u rest ih =>
    rw [toList] at h
    cases hr : (rest ()).toList with
    | error f => rw [hr] at h; cases h
    | ok us =>
      rw [hr] at h
      cases h
      rcases List.mem_cons.1 hv with rfl | hv
      · exact .here
      · exact .there (ih () hr hv)

namespace View

/-! ## Walks that come to an end -/

/-- What a walk reads of a value is there: the kind, the shape, the number of operands and all of them. -/
structure Readable (view : View V T) (v : V) : Prop where
  kind : ∃ kind, view.kind v = .ok kind
  shape : ∃ shape, view.valueShape v = .ok shape
  operandCount : ∃ n, view.operandCount v = .ok n
  operands : ∃ s vs, view.operands v = .ok s ∧ s.toList = .ok vs

variable {view : View V T} {v : V}

/-- The way on from an aggregate: the answer is settled, or its operands are asked. -/
def GoesOn (view : View V T) (aggregate : V → Except Fault (Visit V)) (v : V) : Prop :=
  (∃ answer, aggregate v = .ok (.settled answer)) ∨ ∃ s, view.operands v = .ok s ∧ aggregate v = .ok (.descend s)

theorem Readable.allOperands_goesOn (h : view.Readable v) : view.GoesOn view.allOperands v := by
  obtain ⟨s, vs, ho, -⟩ := h.operands
  refine .inr ⟨s, ho, ?_⟩
  rw [allOperands, ho]
  rfl

theorem Readable.someOperands_goesOn (h : view.Readable v) : view.GoesOn view.someOperands v := by
  obtain ⟨n, hn⟩ := h.operandCount
  unfold GoesOn
  rw [someOperands, hn]
  cases n with
  | zero => exact .inl ⟨false, rfl⟩
  | succ n => exact h.allOperands_goesOn

theorem Readable.visit_cases (h : view.Readable v) (undefined : Bool) {aggregate : V → Except Fault (Visit V)}
    (hagg : view.GoesOn aggregate v) : (∃ answer, view.visit undefined aggregate v = .ok (.settled answer)) ∨
      ∃ s vs, view.visit undefined aggregate v = .ok (.descend s) ∧ s.toList = .ok vs ∧
        ∀ u ∈ vs, view.Descends v u := by
  obtain ⟨kind, hk⟩ := h.kind
  obtain ⟨shape, hs⟩ := h.shape
  have hundef : view.isUndef v = .ok (kind == .undef) := by rw [isUndef, hk]; rfl
  rw [visit, hundef, hs]
  cases kind == .undef with
  | true => exact .inl ⟨undefined, rfl⟩
  | false =>
    show (∃ answer, (if shape.isAggregate = true then aggregate v else _) = _) ∨
      ∃ s vs, (if shape.isAggregate = true then aggregate v else _) = _ ∧ _
    by_cases ha : shape.isAggregate = true
    · rw [if_pos ha]
      refine hagg.imp_right ?_
      rintro ⟨s, ho, hd⟩
      obtain ⟨s', vs, ho', hl⟩ := h.operands
      cases ho.symm.trans ho'
      exact ⟨s, vs, hd, hl, fun u hu => ⟨shape, s, hs, ha, ho, Scan.holds_of_toList hl hu⟩⟩
    · rw [if_neg ha]
      exact .inl ⟨!undefined, rfl⟩

/-- A question that asks the operands of an aggregate what it is asked is answered where the descent is well founded
and all that it reaches can be read. -/
theorem answered_of_acc {ask : V → Except Fault Bool} {undefined : Bool} {aggregate : V → Except Fault (Visit V)}
    (hask : ∀ v, ask v = view.visit undefined aggregate v >>= Visit.resolve ask)
    (hagg : ∀ v, view.Readable v → view.GoesOn aggregate v) (hacc : Acc (fun x y => view.Descends y x) v)
    (hr : ∀ u, view.Reaches v u → view.Readable u) : ∃ answer, ask v = .ok answer := by
  induction hacc with
  | intro v _ ih =>
    have hv : view.Readable v := hr v .refl
    rw [hask]
    rcases hv.visit_cases undefined (hagg v hv) with ⟨answer, h⟩ | ⟨s, vs, h, hl, hd⟩
    · exact ⟨answer, by rw [h]; rfl⟩
    · have hall : ∀ u ∈ vs, ∃ answer, ask u = .ok answer := fun u hu =>
        ih u (hd u hu) fun w hw => hr w (.head (hd u hu) hw)
      obtain ⟨answer, ha⟩ := exists_allM_eq_ok hall
      refine ⟨answer, ?_⟩
      rw [h]
      exact (Scan.allM_eq_of_toList ask hl).trans ha

/-! ## IRs that resemble each other -/

/-- The IRs say the same of related values, and of their operands one by one. The reads of a value need not be
consistent with each other. -/
structure Resembles (a : View V T) (b : View W U) (R : V → W → Prop) : Prop where
  kind : ∀ v w, R v w → a.kind v = b.kind w
  shape : ∀ v w, R v w → ReadAlike Shape.Alike (a.valueShape v) (b.valueShape w)
  operandCount : ∀ v w, R v w → a.operandCount v = b.operandCount w
  operand : ∀ v w i, R v w → ReadAlike (Option.Rel R) (a.operand v i) (b.operand w i)
  intLiteral : ∀ v w, R v w → a.intLiteral v = b.intLiteral w
  floatLiteral : ∀ v w, R v w → a.floatLiteral v = b.floatLiteral w
  opcode : ∀ v w, R v w → a.opcode v = b.opcode w
  intrinsic : ∀ v w, R v w → a.intrinsic v = b.intrinsic w

namespace Resembles

variable {a : View V T} {b : View W U} {R : V → W → Prop} {w : W}

theorem alike (h : a.Resembles b R) (ha : a.Positional) (hb : b.Positional) : a.Alike b R where
  kind := h.kind
  shape := h.shape
  intLiteral := h.intLiteral
  floatLiteral := h.floatLiteral
  opcode := h.opcode
  intrinsic := h.intrinsic
  aggregateElement v w i hr := by
    rw [← ha.aggregateElement, ← hb.aggregateElement]
    refine (ReadAlike.of_eq (h.kind v w hr)).bind ?_
    rintro kind _ - rfl
    split
    · exact h.operand v w i hr
    · exact .ok .none
  castSource v w _ hr _ _ := h.operand v w 0 hr

theorem descentAlike (h : a.Resembles b R) (ha : a.Positional) (hb : b.Positional) : DescentAlike a b R := by
  refine (h.alike ha hb).descentAlike (fun _ _ hr => hr) h.operandCount fun v w _ hr _ _ => ?_
  rw [← ha.operands, ← hb.operands]
  refine (ReadAlike.of_eq (h.operandCount v w hr)).bind ?_
  rintro count _ - rfl
  exact .ok (Scan.Alike.ofPositions (fun i => h.operand v w i hr) 0 count)

end Resembles

/-! ## Other names -/

def renumber (view : View V T) (e : V ≃ W) (f : T ≃ U) : View W U where
  values := view.values.map e
  kind w := view.kind (e.symm w)
  type w := f <$> view.type (e.symm w)
  shape u := Shape.map f <$> view.shape (f.symm u)
  operandCount w := view.operandCount (e.symm w)
  operand w i := Option.map e <$> view.operand (e.symm w) i
  intLiteral w := view.intLiteral (e.symm w)
  floatLiteral w := view.floatLiteral (e.symm w)
  opcode w := view.opcode (e.symm w)
  intrinsic w := view.intrinsic (e.symm w)
  mem_values w k h := List.mem_map.2 ⟨e.symm w, view.mem_values _ k h, e.apply_symm_apply w⟩

theorem renumber_positional (view : View V T) (e : V ≃ W) (f : T ≃ U) : (view.renumber e f).Positional :=
  ⟨fun _ => rfl, fun _ _ => rfl⟩

theorem shape_renumber (view : View V T) (e : V ≃ W) (f : T ≃ U) (t : T) :
    ReadAlike Shape.Alike (view.shape t) ((view.renumber e f).shape (f t)) := by
  show ReadAlike _ _ (Shape.map f <$> view.shape (f.symm (f t)))
  rw [f.symm_apply_apply]
  cases view.shape t with
  | error fault => exact .fault fault
  | ok shape =>
    refine .ok ?_
    cases shape <;> rfl

theorem resembles_renumber (view : View V T) (e : V ≃ W) (f : T ≃ U) :
    view.Resembles (view.renumber e f) fun v w => e v = w where
  kind := by rintro v _ rfl; exact congrArg view.kind (e.symm_apply_apply v).symm
  shape := by
    rintro v _ rfl
    show ReadAlike _ (view.type v >>= view.shape) ((f <$> view.type (e.symm (e v))) >>= (view.renumber e f).shape)
    rw [e.symm_apply_apply]
    cases view.type v with
    | error fault => exact .fault fault
    | ok t => exact view.shape_renumber e f t
  operandCount := by rintro v _ rfl; exact congrArg view.operandCount (e.symm_apply_apply v).symm
  operand := by
    rintro v _ i rfl
    show ReadAlike _ (view.operand v i) (Option.map e <$> view.operand (e.symm (e v)) i)
    rw [e.symm_apply_apply]
    rcases view.operand v i with fault | _ | u
    · exact .fault fault
    · exact .ok .none
    · exact .ok (.some rfl)
  intLiteral := by rintro v _ rfl; exact congrArg view.intLiteral (e.symm_apply_apply v).symm
  floatLiteral := by rintro v _ rfl; exact congrArg view.floatLiteral (e.symm_apply_apply v).symm
  opcode := by rintro v _ rfl; exact congrArg view.opcode (e.symm_apply_apply v).symm
  intrinsic := by rintro v _ rfl; exact congrArg view.intrinsic (e.symm_apply_apply v).symm

/-! ## Answers -/

/-- The IRs answer alike about related values. The walks do not owe this to a fault where the descent is well
founded: there they have an answer. -/
structure AnswersAlike (a : View V T) (b : View W U) (R : V → W → Prop) : Prop where
  inquiry : ∀ q : Inquiry (V × W) (T × U), (∀ p ∈ q.values, R p.1 p.2) →
    (∀ p ∈ q.types, ReadAlike Shape.Alike (a.shape p.1) (b.shape p.2)) →
    (q.map Prod.fst Prod.fst).ask a = (q.map Prod.snd Prod.snd).ask b
  conversion : ∀ chain chain' out, List.Forall₂ R chain chain' →
    a.convertIndices chain out = b.convertIndices chain' out
  profile : ∀ v w, R v w → a.profile v = b.profile w
  walks : ∀ v w, R v w → Acc (fun x y => a.Descends y x) v → (∀ u, a.Reaches v u → a.Readable u) →
    ∃ defined undefined, a.allDefined v = .ok defined ∧ b.allDefined w = .ok defined ∧
      a.allUndefinedDeep v = .ok undefined ∧ b.allUndefinedDeep w = .ok undefined

theorem Resembles.answersAlike {a : View V T} {b : View W U} {R : V → W → Prop} (h : a.Resembles b R)
    (ha : a.Positional) (hb : b.Positional) : a.AnswersAlike b R := by
  have halike : a.Alike b R := h.alike ha hb
  have hdescent : DescentAlike a b R := h.descentAlike ha hb
  refine ⟨fun q hv ht => ?_, fun chain chain' out hc => halike.convertIndices_eq hc out, fun v w hr => ?_,
    fun v w hr hacc hread => ?_⟩
  · refine halike.ask_map_eq hv ht fun p hp => ?_
    have hr : R p.1 p.2 := hv p (Inquiry.mem_values_of_start? hp)
    exact ⟨hdescent.allDefined_eq hr, hdescent.allUndefinedDeep_eq hr⟩
  · exact halike.profile_eq hr (hdescent.allDefined_eq hr) (hdescent.allUndefinedDeep_eq hr)
  · obtain ⟨defined, hd⟩ := answered_of_acc a.allDefined_eq (fun _ hu => hu.allOperands_goesOn) hacc hread
    obtain ⟨undefined, hu⟩ := answered_of_acc a.allUndefinedDeep_eq (fun _ hu => hu.someOperands_goesOn) hacc hread
    exact ⟨defined, undefined, hd, (hdescent.allDefined_eq hr).symm.trans hd, hu,
      (hdescent.allUndefinedDeep_eq hr).symm.trans hu⟩

/-- The answers are the same whatever the values and types are called. -/
structure AnswersUnderAnyNames (view : View V T) : Prop where
  inquiry : ∀ {W U : Type} (e : V ≃ W) (f : T ≃ U) (q : Inquiry V T),
    (q.map e f).ask (view.renumber e f) = q.ask view
  conversion : ∀ {W U : Type} (e : V ≃ W) (f : T ≃ U) chain out,
    (view.renumber e f).convertIndices (chain.map e) out = view.convertIndices chain out
  profile : ∀ {W U : Type} (e : V ≃ W) (f : T ≃ U) v, (view.renumber e f).profile (e v) = view.profile v

theorem Positional.answersUnderAnyNames (h : view.Positional) : view.AnswersUnderAnyNames where
  inquiry e f q := by
    -- the inquiry about each value and type paired with its new name
    have hask := (view.resembles_renumber e f).answersAlike h (view.renumber_positional e f) |>.inquiry
      (q.map (fun v => (v, e v)) fun t => (t, f t)) (by simp) ?_
    · rw [Inquiry.map_map, Inquiry.map_map] at hask
      exact hask.symm.trans (congrArg (Inquiry.ask view) q.map_id)
    · intro p hp
      rw [Inquiry.types_map, List.mem_map] at hp
      obtain ⟨t, -, rfl⟩ := hp
      exact view.shape_renumber e f t
  conversion e f chain out := by
    have hc : List.Forall₂ (fun v w => e v = w) chain (chain.map e) := by
      rw [List.forall₂_map_right_iff]
      exact List.forall₂_same.2 fun _ _ => rfl
    exact ((view.resembles_renumber e f).answersAlike h (view.renumber_positional e f)).conversion _ _ out hc |>.symm
  profile e f v :=
    (((view.resembles_renumber e f).answersAlike h (view.renumber_positional e f)).profile v _ rfl).symm

/-- IRs that resemble each other answer alike about related values, and an IR answers the same under any names. -/
theorem answers_alike {a : View V T} {b : View W U} {R : V → W → Prop} (ha : a.Positional) (hb : b.Positional)
    (h : a.Resembles b R) : a.AnswersAlike b R ∧ a.AnswersUnderAnyNames :=
  ⟨h.answersAlike ha hb, ha.answersUnderAnyNames⟩

end View

/-! ## Tables -/

namespace Table

theorem view_positional (table : Table) : table.view.Positional :=
  ⟨fun _ => rfl, fun _ _ => rfl⟩

/-- A vector that counts one operand more than it has, and an undefined lane with a literal. -/
def crooked : Table where
  shapes := #[.int 32, .vector ⟨0⟩ 2]
  rows := #[{ kind := .constantInt, type := ⟨0⟩, int := some (-1) },
    { kind := .constantAggregate, type := ⟨1⟩, operands := #[⟨0⟩, ⟨2⟩], count := some 3 },
    { kind := .undef, type := ⟨0⟩, float := some ⟨.half, .nan⟩ }]

/-- The same in another order, and with one row and one type more. -/
def crookedToo : Table where
  shapes := #[.vector ⟨2⟩ 2, .void, .int 32]
  rows := #[{ kind := .constantAggregate, type := ⟨0⟩, operands := #[⟨3⟩, ⟨1⟩], count := some 3 },
    { kind := .undef, type := ⟨2⟩, float := some ⟨.half, .nan⟩ }, { kind := .argument, type := ⟨1⟩ },
    { kind := .constantInt, type := ⟨2⟩, int := some (-1) }]

inductive CrookedPair : ValueId → ValueId → Prop
  | literal : CrookedPair ⟨0⟩ ⟨3⟩
  | vector : CrookedPair ⟨1⟩ ⟨0⟩
  | lane : CrookedPair ⟨2⟩ ⟨1⟩

theorem crooked_resembles : crooked.view.Resembles crookedToo.view CrookedPair where
  kind := by rintro _ _ ⟨⟩ <;> rfl
  shape := by rintro _ _ ⟨⟩ <;> exact .ok rfl
  operandCount := by rintro _ _ ⟨⟩ <;> rfl
  operand := by
    rintro _ _ i ⟨⟩
    · exact .ok .none
    · match i with
      | 0 => exact .ok (.some .literal)
      | 1 => exact .ok (.some .lane)
      | i + 2 => exact .ok .none
    · exact .ok .none
  intLiteral := by rintro _ _ ⟨⟩ <;> rfl
  floatLiteral := by rintro _ _ ⟨⟩ <;> rfl
  opcode := by rintro _ _ ⟨⟩ <;> rfl
  intrinsic := by rintro _ _ ⟨⟩ <;> rfl

/-- Asked whether the vector is a mask, both report the lane that is no literal. -/
theorem answers_alike_crooked : crooked.view.Positional ∧ crookedToo.view.Positional ∧
    crooked.view.Resembles crookedToo.view CrookedPair ∧
    (Inquiry.hasAllSet ⟨1⟩).ask crooked.view = (Inquiry.hasAllSet ⟨0⟩).ask crookedToo.view ∧
    ((Inquiry.hasAllSet ⟨1⟩).ask crooked.view).reports = [.nonSimpleConstant] := by
  have h := (View.answers_alike crooked.view_positional crookedToo.view_positional crooked_resembles).1
  refine ⟨crooked.view_positional, crookedToo.view_positional, crooked_resembles, ?_, by decide +kernel⟩
  refine h.inquiry (.hasAllSet (⟨1⟩, ⟨0⟩)) (fun p hp => ?_) fun p hp => ?_
  · obtain rfl := List.mem_singleton.1 hp
    exact .vector
  · cases hp

end Table

end Lanewise
