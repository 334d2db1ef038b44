/-
The outcome of a step of building. The checks only look: they leave the graph as it was, and they
pass exactly under a condition on it.
-/
import Lanewise.Graph.Command
import Lanewise.Proofs.Graph.Change

namespace Lanewise

namespace Build

variable {α β : Type} {g g' : Graph}

/-! ## Sequencing -/

theorem bind_ok_iff {m : Build α} {f : α → Build β} {b : β} :
    (m >>= f).run g = .ok b g' ↔ ∃ a h, m.run g = .ok a h ∧ (f a).run h = .ok b g' := by
  rw [EStateM.run_bind]
  cases m.run g with
  | ok a h => exact ⟨fun hb => ⟨a, h, rfl, hb⟩, by rintro ⟨_, _, ⟨⟩, hb⟩; exact hb⟩
  | error e h => simp

theorem bind_error_iff {m : Build α} {f : α → Build β} {e : BuildError} :
    (m >>= f).run g = .error e g' ↔
      m.run g = .error e g' ∨ ∃ a h, m.run g = .ok a h ∧ (f a).run h = .error e g' := by
  rw [EStateM.run_bind]
  cases m.run g with
  | ok a h =>
    constructor
    · exact fun he => .inr ⟨a, h, rfl, he⟩
    · rintro (he | ⟨_, _, ⟨⟩, he⟩)
      · cases he
      · exact he
  | error e h => simp

theorem map_ok_iff {m : Build α} {f : α → β} {b : β} :
    (f <$> m).run g = .ok b g' ↔ ∃ a, m.run g = .ok a g' ∧ f a = b := by
  rw [map_eq_pure_bind, bind_ok_iff]
  constructor
  · rintro ⟨a, h, hm, ⟨⟩⟩; exact ⟨a, hm, rfl⟩
  · rintro ⟨a, hm, rfl⟩; exact ⟨a, g', hm, rfl⟩

theorem run_discard (m : Build α) (g : Graph) : (discard m).run g =
    match m.run g with
    | .ok _ h => .ok () h
    | .error e h => .error e h := by
  show (m >>= fun _ => pure ()).run g = _
  rw [EStateM.run_bind]
  cases m.run g <;> rfl

@[simp] theorem throw_bind (e : BuildError) (f : α → Build β) : ((throw e : Build α) >>= f) = throw e := rfl

/-! ## Steps that no graph accepts -/

def Refuses (m : Build α) : Prop :=
  ∀ g a g', m.run g ≠ .ok a g'

theorem Refuses.throw (e : BuildError) : Refuses (MonadExcept.throw e : Build α) := by
  rintro g a g' ⟨⟩

theorem Refuses.bind {m : Build α} {f : α → Build β} (hf : ∀ a, Refuses (f a)) : Refuses (m >>= f) := by
  intro g b g' h
  obtain ⟨a, h', -, hb⟩ := bind_ok_iff.1 h
  exact hf a _ _ _ hb

theorem guard_ok_iff {c : Prop} [Decidable c] {r m : Build α} (hr : Refuses r) {a : α} :
    (if c then r else m).run g = .ok a g' ↔ ¬ c ∧ m.run g = .ok a g' := by
  split
  · rename_i hc; exact ⟨fun h => absurd h (hr _ _ _), fun h => absurd hc h.1⟩
  · rename_i hc; exact ⟨fun h => ⟨hc, h⟩, And.right⟩

/-! ## Steps that only look -/

/-- A step that leaves the graph as it was when it is refused. -/
def Atomic (m : Build α) : Prop :=
  ∀ g e g', m.run g = .error e g' → g' = g

/-- A step that leaves the graph as it was, accepted or refused. -/
structure Looks (m : Build α) : Prop where
  accepted : ∀ g a g', m.run g = .ok a g' → g' = g
  refused : Atomic m

namespace Looks

theorem of_run {m : Build α} (h : ∀ g, (∃ a, m.run g = .ok a g) ∨ ∃ e, m.run g = .error e g) : Looks m := by
  constructor
  · intro g a g' ha
    rcases h g with ⟨b, hb⟩ | ⟨e, he⟩
    · rw [hb] at ha; cases ha; rfl
    · rw [he] at ha; cases ha
  · intro g e g' he
    rcases h g with ⟨b, hb⟩ | ⟨e', he'⟩
    · rw [hb] at he; cases he
    · rw [he'] at he; cases he; rfl

theorem pure (a : α) : Looks (Pure.pure a : Build α) :=
  of_run fun _ => .inl ⟨a, rfl⟩

theorem throw (e : BuildError) : Looks (MonadExcept.throw e : Build α) :=
  of_run fun _ => .inr ⟨e, rfl⟩

theorem get : Looks (MonadState.get : Build Graph) :=
  of_run fun g => .inl ⟨g, rfl⟩

theorem bind {m : Build α} {f : α → Build β} (hm : Looks m) (hf : ∀ a, Looks (f a)) : Looks (m >>= f) := by
  constructor
  · intro g b g' h
    obtain ⟨a, h', ha, hb⟩ := bind_ok_iff.1 h
    exact ((hf a).accepted _ _ _ hb).trans (hm.accepted _ _ _ ha)
  · intro g e g' h
    rcases bind_error_iff.1 h with ha | ⟨a, h', ha, hb⟩
    · exact hm.refused _ _ _ ha
    · exact ((hf a).refused _ _ _ hb).trans (hm.accepted _ _ _ ha)

theorem discard {m : Build α} (hm : Looks m) : Looks (discard m) :=
  hm.bind fun _ => pure ()

theorem ite {c : Prop} [Decidable c] {m n : Build α} (hm : Looks m) (hn : Looks n) :
    Looks (if c then m else n) := by
  split
  · exact hm
  · exact hn

/-- After a look that is accepted the rest runs on the same graph. -/
theorem bind_ok_iff {m : Build α} (hm : Looks m) {f : α → Build β} {b : β} :
    (m >>= f).run g = .ok b g' ↔ ∃ a, m.run g = .ok a g ∧ (f a).run g = .ok b g' := by
  rw [Build.bind_ok_iff]
  constructor
  · rintro ⟨a, h, ha, hb⟩
    obtain rfl := hm.accepted _ _ _ ha
    exact ⟨a, ha, hb⟩
  · rintro ⟨a, ha, hb⟩; exact ⟨a, g, ha, hb⟩

theorem then_ok_iff {m : Build Unit} (hm : Looks m) {f : Unit → Build β} {b : β} :
    (m >>= f).run g = .ok b g' ↔ m.run g = .ok () g ∧ (f ()).run g = .ok b g' := by
  rw [hm.bind_ok_iff]
  exact ⟨fun ⟨_, h⟩ => h, fun h => ⟨(), h⟩⟩

theorem discard_ok_iff {m : Build α} (hm : Looks m) :
    (Functor.discard m).run g = .ok () g ↔ ∃ a, m.run g = .ok a g := by
  show (m >>= fun _ => Pure.pure ()).run g = .ok () g ↔ _
  rw [hm.bind_ok_iff]
  exact exists_congr fun a => and_iff_left rfl

end Looks

/-! ## The checks -/

theorem run_checkType (t : TypeId) (g : Graph) : (checkType t).run g =
    match g.types.form? t with
    | some form => .ok form g
    | none => .error (.noSuchType t) g := by
  show (match g.types.form? t with
    | some form => (pure form : Build TypeForm)
    | none => throw (BuildError.noSuchType t)).run g = _
  cases g.types.form? t <;> rfl

theorem run_checkValue (v : ValueId) (g : Graph) : (checkValue v).run g =
    match g.node? v with
    | some node => .ok node g
    | none => .error (.noSuchValue v g.size) g := by
  show (match g.node? v with
    | some node => (pure node : Build Node)
    | none => throw (BuildError.noSuchValue v g.size)).run g = _
  cases g.node? v <;> rfl

theorem typeName_looks (t : TypeId) : Looks (typeName t) :=
  Looks.get.bind fun g => Looks.pure (g.typeName t)

theorem checkType_looks (t : TypeId) : Looks (checkType t) := by
  refine Looks.of_run fun g => ?_
  rw [run_checkType]
  cases g.types.form? t with
  | some form => exact .inl ⟨form, rfl⟩
  | none => exact .inr ⟨_, rfl⟩

theorem checkValue_looks (v : ValueId) : Looks (checkValue v) := by
  refine Looks.of_run fun g => ?_
  rw [run_checkValue]
  cases g.node? v with
  | some node => exact .inl ⟨node, rfl⟩
  | none => exact .inr ⟨_, rfl⟩

theorem checkOperands_looks (vs : List ValueId) : Looks (checkOperands vs) := by
  induction vs with
  | nil => exact Looks.pure ()
  | cons v vs ih => exact (checkValue_looks v).discard.bind fun _ => ih

theorem checkFields_looks (fields : List TypeId) : Looks (checkFields fields) := by
  induction fields with
  | nil => exact Looks.pure ()
  | cons field fields ih => exact (checkType_looks field).bind fun _ => Looks.ite (Looks.throw _) ih

theorem checkIncoming_looks (type : TypeId) (vs : List ValueId) : Looks (checkIncoming type vs) := by
  induction vs with
  | nil => exact Looks.pure ()
  | cons v vs ih =>
    exact (checkValue_looks v).bind fun _ =>
      Looks.ite ((typeName_looks _).bind fun _ => Looks.throw _) ih

theorem checkElements_looks (form : TypeForm) (i : Nat) (vs : List ValueId) :
    Looks (checkElements form i vs) := by
  induction vs generalizing i with
  | nil => exact Looks.pure ()
  | cons v vs ih =>
    refine (checkValue_looks v).bind fun node => Looks.ite (Looks.throw _) (Looks.ite ?_ (ih (i + 1)))
    refine (typeName_looks _).bind fun _ => Looks.bind ?_ fun _ => Looks.throw _
    cases form.element? i with
    | none => exact Looks.pure ""
    | some t => exact typeName_looks t

theorem checkType_passes {t : TypeId} {form : TypeForm} :
    (checkType t).run g = .ok form g ↔ g.types.form? t = some form := by
  rw [run_checkType]
  cases g.types.form? t <;> simp

theorem checkValue_passes {v : ValueId} {node : Node} :
    (checkValue v).run g = .ok node g ↔ g.node? v = some node := by
  rw [run_checkValue]
  cases g.node? v <;> simp

theorem checkType_bind_ok_iff {t : TypeId} {f : TypeForm → Build β} {b : β} :
    (checkType t >>= f).run g = .ok b g' ↔
      ∃ form, g.types.form? t = some form ∧ (f form).run g = .ok b g' := by
  rw [(checkType_looks t).bind_ok_iff]
  simp only [checkType_passes]

theorem checkType_guard_ok_iff {t : TypeId} {P : TypeForm → Prop} [DecidablePred P] {r : TypeForm → Build β}
    {m : Build β} {b : β} (hr : ∀ form, Refuses (r form)) :
    (checkType t >>= fun form => if P form then r form else m).run g = .ok b g' ↔
      (∃ form, g.types.form? t = some form ∧ ¬ P form) ∧ m.run g = .ok b g' := by
  rw [checkType_bind_ok_iff]
  constructor
  · rintro ⟨form, hf, h⟩
    obtain ⟨hp, hm⟩ := (guard_ok_iff (hr form)).1 h
    exact ⟨⟨form, hf, hp⟩, hm⟩
  · rintro ⟨⟨form, hf, hp⟩, hm⟩
    exact ⟨form, hf, (guard_ok_iff (hr form)).2 ⟨hp, hm⟩⟩

theorem checkValue_bind_ok_iff {v : ValueId} {f : Node → Build β} {b : β} :
    (checkValue v >>= f).run g = .ok b g' ↔ ∃ node, g.node? v = some node ∧ (f node).run g = .ok b g' := by
  rw [(checkValue_looks v).bind_ok_iff]
  simp only [checkValue_passes]

theorem checkOperands_passes {vs : List ValueId} :
    (checkOperands vs).run g = .ok () g ↔ ∀ v ∈ vs, ∃ node, g.node? v = some node := by
  induction vs with
  | nil => simp [checkOperands]
  | cons v vs ih =>
    rw [checkOperands, (checkValue_looks v).discard.then_ok_iff, List.forall_mem_cons, ← ih,
      (checkValue_looks v).discard_ok_iff]
    simp only [checkValue_passes]

theorem checkFields_passes {fields : List TypeId} :
    (checkFields fields).run g = .ok () g ↔
      ∀ field ∈ fields, ∃ form, g.types.form? field = some form ∧ form ≠ .void := by
  induction fields with
  | nil => simp [checkFields]
  | cons field fields ih =>
    rw [checkFields, List.forall_mem_cons, ← ih]
    exact checkType_guard_ok_iff fun _ => Refuses.throw _

theorem checkIncoming_passes {type : TypeId} {vs : List ValueId} :
    (checkIncoming type vs).run g = .ok () g ↔
      ∀ v ∈ vs, ∃ node, g.node? v = some node ∧ node.type = type := by
  induction vs with
  | nil => simp [checkIncoming]
  | cons v vs ih =>
    rw [checkIncoming, checkValue_bind_ok_iff, List.forall_mem_cons, ← ih]
    simp only [throw_bind, guard_ok_iff (Refuses.bind fun _ => Refuses.throw _), ne_eq, Decidable.not_not]
    constructor
    · rintro ⟨node, hn, ht, h⟩; exact ⟨⟨node, hn, ht⟩, h⟩
    · rintro ⟨⟨node, hn, ht⟩, h⟩; exact ⟨node, hn, ht, h⟩

theorem checkElements_passes {form : TypeForm} {i : Nat} {vs : List ValueId} :
    (checkElements form i vs).run g = .ok () g ↔
      ∀ j v, vs[j]? = some v → ∃ node, g.node? v = some node ∧ node.content.kind.isConstant = true ∧
        form.element? (i + j) = some node.type := by
  induction vs generalizing i with
  | nil => simp [checkElements]
  | cons v vs ih =>
    rw [checkElements, checkValue_bind_ok_iff]
    simp only [throw_bind, guard_ok_iff (Refuses.throw _), ih,
      guard_ok_iff (Refuses.bind fun _ => Refuses.bind fun _ => Refuses.throw _)]
    -- position `j` of the rest is position `j + 1` of the list
    constructor
    · rintro ⟨node, hn, hc, ht, h⟩ (_ | j) w hw
      · cases hw
        exact ⟨node, hn, by simpa using hc, by simpa using ht⟩
      · obtain ⟨m, hm, hk, hj⟩ := h j w hw
        exact ⟨m, hm, hk, by rw [← hj]; congr 1; omega⟩
    · intro h
      obtain ⟨node, hn, hc, ht⟩ := h 0 v rfl
      refine ⟨node, hn, by simpa using hc, by simpa using ht, fun j w hw => ?_⟩
      obtain ⟨m, hm, hk, hj⟩ := h (j + 1) w hw
      exact ⟨m, hm, hk, by rw [← hj]; congr 1; omega⟩

/-! ## The steps that change the graph -/

theorem run_intern (form : TypeForm) (g : Graph) :
    (intern form).run g = .ok (g.types.intern form).1 (g.withForm form) := rfl

theorem run_push (type : TypeId) (content : Content) (g : Graph) :
    (push type content).run g = .ok ⟨g.size⟩ (g.withNode { type, content }) := rfl

theorem run_setName (v : ValueId) (name : String) (g : Graph) : (setName v name).run g =
    match g.node? v with
    | some _ => .ok () (g.withName v name)
    | none => .error (.noSuchValue v g.size) g := by
  rw [setName, EStateM.run_bind, run_discard, run_checkValue]
  cases g.node? v <;> rfl

theorem run_argument {type : TypeId} {form : TypeForm} (h : g.types.form? type = some form) (name : String) :
    (argument type name).run g =
      .ok ⟨g.size⟩ ((g.withNode { type, content := .argument }).withName ⟨g.size⟩ name) := by
  have hc : (checkType type).run g = .ok form g := checkType_passes.2 h
  -- the value that was just made is there to be named
  have hn : (setName ⟨g.size⟩ name).run (g.withNode { type, content := .argument }) =
      .ok () ((g.withNode { type, content := .argument }).withName ⟨g.size⟩ name) := by
    rw [run_setName, Graph.node?_withNode_self]
  simp only [argument, EStateM.run_bind, run_discard, hc, run_push, hn, EStateM.run_pure]

end Build

namespace Graph

/-! ## Runs -/

theorem Reachable.foldl_after {g : Graph} (h : g.Reachable) (cs : List Command) :
    (cs.foldl Graph.after g).Reachable := by
  induction cs generalizing g with
  | nil => exact h
  | cons c cs ih => exact ih (h.after c)

/-- A graph with a value of most kinds. The last command is refused, at its second value. -/
def sample : Graph :=
  [.intType 8, .floatType .single, .vectorType ⟨1⟩ 2, .structType [⟨0⟩, ⟨2⟩], .constInt ⟨0⟩ 255,
    .constFloat ⟨1⟩ (.ofBits .double 0x3FE0000000000000), .constSplat ⟨2⟩ ⟨1⟩,
    .constAggregate ⟨3⟩ [⟨0⟩, ⟨2⟩], .argument ⟨2⟩ "color", .phi ⟨2⟩, .setPhiIncoming ⟨5⟩ [⟨2⟩, ⟨4⟩],
    .setPhiIncoming ⟨5⟩ [⟨4⟩, ⟨0⟩]].foldl after empty

theorem sample_reachable : sample.Reachable :=
  Reachable.empty.foldl_after _

end Graph

end Lanewise
