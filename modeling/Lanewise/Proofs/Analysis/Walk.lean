/-
Walks of bounded depth over values that are visited one at a time. If the values that hand over are among `n`, a
walk of more than `n` levels answers the same whatever its depth (`walk_stable`), also where operands go around a
cycle; and walks that visit related values alike answer alike (`walk_congr`).
-/
import Lanewise.View.Scan
import Mathlib.Tactic

namespace Lanewise

/-! ## Reads -/

/-- Two reads fault alike or give related answers. -/
inductive ReadAlike {α β : Type} (R : α → β → Prop) : Except Fault α → Except Fault β → Prop
  | fault (f : Fault) : ReadAlike R (.error f) (.error f)
  | ok {a : α} {b : β} : R a b → ReadAlike R (.ok a) (.ok b)

namespace ReadAlike

variable {α β γ δ : Type} {R : α → β → Prop} {x : Except Fault α} {y : Except Fault β}

theorem of_eq {x y : Except Fault α} (h : x = y) : ReadAlike Eq x y := by
  subst h
  cases x with
  | error f => exact .fault f
  | ok a => exact .ok rfl

theorem imp {S : α → β → Prop} (h : ReadAlike R x y) (hs : ∀ a b, R a b → S a b) : ReadAlike S x y := by
  cases h with
  | fault e => exact .fault e
  | ok hr => exact .ok (hs _ _ hr)

theorem bind {S : γ → δ → Prop} {f : α → Except Fault γ} {g : β → Except Fault δ} (h : ReadAlike R x y)
    (hfg : ∀ a b, x = .ok a → R a b → ReadAlike S (f a) (g b)) : ReadAlike S (x >>= f) (y >>= g) := by
  cases h with
  | fault e => exact .fault e
  | ok hr => exact hfg _ _ rfl hr

theorem bind_eq {f : α → Except Fault γ} {g : β → Except Fault γ} (h : ReadAlike R x y)
    (hfg : ∀ a b, R a b → f a = g b) : x >>= f = y >>= g := by
  cases h with
  | fault e => rfl
  | ok hr => exact hfg _ _ hr

end ReadAlike

/-! ## Scans -/

namespace Scan

variable {V W : Type}

/-- The scan hands out the value when it is read as far as it goes. -/
inductive Holds (v : V) : Scan V → Prop
  | here {rest : Unit → Scan V} : Holds v (.next v rest)
  | there {u : V} {rest : Unit → Scan V} : Holds v (rest ()) → Holds v (.next u rest)

theorem holds_ofList {v : V} {vs : List V} : (ofList vs).Holds v ↔ v ∈ vs := by
  induction vs with
  | nil =>
    constructor
    · intro h; cases h
    · intro h; cases h
  | cons u vs ih =>
    rw [List.mem_cons, ← ih]
    constructor
    · intro h
      cases h with
      | here => exact .inl rfl
      | there h => exact .inr h
    · rintro (rfl | h)
      · exact .here
      · exact .there h

/-- Two scans hand out related values and end alike. -/
inductive Alike (R : V → W → Prop) : Scan V → Scan W → Prop
  | done : Alike R .done .done
  | fault (f : Fault) : Alike R (.fault f) (.fault f)
  | next {v : V} {w : W} {rest : Unit → Scan V} {rest' : Unit → Scan W} : R v w →
      Alike R (rest ()) (rest' ()) → Alike R (.next v rest) (.next w rest')

theorem Alike.ofList {R : V → V → Prop} {vs : List V} (h : ∀ v ∈ vs, R v v) :
    Alike R (ofList vs) (ofList vs) := by
  induction vs with
  | nil => exact .done
  | cons v vs ih =>
    rw [List.forall_mem_cons] at h
    exact .next h.1 (ih h.2)

theorem Alike.allM_eq {R : V → W → Prop} {s : Scan V} {s' : Scan W} {test : V → Except Fault Bool}
    {test' : W → Except Fault Bool} (h : Alike R s s') (ht : ∀ v w, R v w → test v = test' w) :
    s.allM test = s'.allM test' := by
  induction h with
  | done => rfl
  | fault f => rfl
  | next hr _ ih => rw [allM, allM, ht _ _ hr, ih]

/-- Every value that is come to has the property: the test holds of all values before it. -/
def Visits (test : V → Except Fault Bool) (P : V → Prop) : Scan V → Prop
  | .done | .fault _ => True
  | .next v rest => P v ∧ (test v = .ok true → Visits test P (rest ()))

variable {test test' : V → Except Fault Bool} {P P' : V → Prop}

theorem Visits.congr {s : Scan V} (h : s.Visits test P) (ht : ∀ v, P v → test' v = test v ∧ P' v) :
    s.allM test' = s.allM test ∧ s.Visits test' P' := by
  induction s with
  | done => exact ⟨rfl, trivial⟩
  | fault f => exact ⟨rfl, trivial⟩
  | next v rest ih =>
    obtain ⟨hv, hrest⟩ := h
    obtain ⟨he, hp⟩ := ht v hv
    rw [allM, allM, Visits, he]
    rcases hb : test v with f | _ | _
    · exact ⟨rfl, hp, by rintro ⟨⟩⟩
    · exact ⟨rfl, hp, by rintro ⟨⟩⟩
    · obtain ⟨ha, hp'⟩ := ih () (hrest hb)
      exact ⟨ha, hp, fun _ => hp'⟩

theorem allM_eq_error {s : Scan V} {f : Fault} (h : ¬ s.Visits test P)
    (ht : ∀ v, ¬ P v → test v = .error f) : s.allM test = .error f := by
  induction s with
  | done => exact absurd trivial h
  | fault g => exact absurd trivial h
  | next v rest ih =>
    rw [allM]
    by_cases hv : P v
    · have hrest : ¬ (test v = .ok true → Visits test P (rest ())) := fun hr => h ⟨hv, hr⟩
      obtain ⟨hb, hrest⟩ := Classical.not_imp.1 hrest
      rw [hb]
      exact ih () hrest
    · rw [ht v hv]
      rfl

/-- Where all values come to have one property and not all have another, a value tells the two apart. -/
theorem exists_holds_of_visits {s : Scan V} (h : s.Visits test' P') (hn : ¬ s.Visits test P)
    (ht : ∀ v, P v → test' v = test v) : ∃ v, s.Holds v ∧ P' v ∧ ¬ P v := by
  induction s with
  | done => exact absurd trivial hn
  | fault f => exact absurd trivial hn
  | next v rest ih =>
    obtain ⟨hv', hrest'⟩ := h
    by_cases hv : P v
    · have hrest : ¬ (test v = .ok true → Visits test P (rest ())) := fun hr => hn ⟨hv, hr⟩
      obtain ⟨hb, hrest⟩ := Classical.not_imp.1 hrest
      obtain ⟨u, hu, hP', hP⟩ := ih () (hrest' ((ht v hv).trans hb)) hrest
      exact ⟨u, .there hu, hP', hP⟩
    · exact ⟨v, .here, hv', hv⟩

end Scan

/-! ## Walks -/

/-- What is found at a value: the answer, or operands of which all must be asked. -/
inductive Visit (V : Type) where
  | settled (answer : Bool)
  | descend (operands : Scan V)

namespace Visit

variable {V W : Type}

/-- The answer of a visit, the operands being answered by `test`. -/
def resolve (test : V → Except Fault Bool) : Visit V → Except Fault Bool
  | .settled answer => .ok answer
  | .descend operands => operands.allM test

inductive Alike (R : V → W → Prop) : Visit V → Visit W → Prop
  | settled (answer : Bool) : Alike R (.settled answer) (.settled answer)
  | descend {s : Scan V} {s' : Scan W} : s.Alike R s' → Alike R (.descend s) (.descend s')

theorem Alike.resolve_eq {R : V → W → Prop} {x : Visit V} {y : Visit W} {test : V → Except Fault Bool}
    {test' : W → Except Fault Bool} (h : x.Alike R y) (ht : ∀ v w, R v w → test v = test' w) :
    x.resolve test = y.resolve test' := by
  cases h with
  | settled answer => rfl
  | descend hs => exact hs.allM_eq ht

end Visit

section
variable {V W : Type}

/-- The answer within `depth - 1` descents. -/
def walk (visit : V → Except Fault (Visit V)) : Nat → V → Except Fault Bool
  | 0, _ => .error .endlessDescent
  | depth + 1, v => visit v >>= Visit.resolve (walk visit depth)

/-- No value is come to that is more than `depth - 1` descents away. -/
def EndsWithin (visit : V → Except Fault (Visit V)) : Nat → V → Prop
  | 0, _ => False
  | depth + 1, v =>
    ∀ s, visit v = .ok (.descend s) → s.Visits (walk visit depth) (EndsWithin visit depth)

variable {visit : V → Except Fault (Visit V)} {v : V} {d d' : Nat}

theorem EndsWithin.succ (h : EndsWithin visit d v) :
    walk visit (d + 1) v = walk visit d v ∧ EndsWithin visit (d + 1) v := by
  induction d generalizing v with
  | zero => exact h.elim
  | succ d ih =>
    rw [walk, walk]
    rcases hx : visit v with f | answer | s
    · exact ⟨rfl, fun s hs => by rw [hx] at hs; cases hs⟩
    · exact ⟨rfl, fun s hs => by rw [hx] at hs; cases hs⟩
    · obtain ⟨he, hv⟩ := (h s hx).congr fun u hu => ih hu
      refine ⟨he, fun s' hs' => ?_⟩
      cases hx.symm.trans hs'
      exact hv

theorem EndsWithin.le (h : EndsWithin visit d v) (hd : d ≤ d') :
    walk visit d' v = walk visit d v ∧ EndsWithin visit d' v := by
  induction d', hd using Nat.le_induction with
  | base => exact ⟨rfl, h⟩
  | succ d' _ ih =>
    obtain ⟨he, hv⟩ := ih.2.succ
    exact ⟨he.trans ih.1, hv⟩

theorem walk_eq_error (h : ¬ EndsWithin visit d v) : walk visit d v = .error .endlessDescent := by
  induction d generalizing v with
  | zero => rfl
  | succ d ih =>
    rw [EndsWithin] at h
    push Not at h
    obtain ⟨s, hs, hn⟩ := h
    rw [walk, hs]
    exact Scan.allM_eq_error hn fun u hu => ih hu

theorem exists_operand_endsWithin (h : EndsWithin visit (d + 2) v) (hn : ¬ EndsWithin visit (d + 1) v) :
    ∃ s u, visit v = .ok (.descend s) ∧ s.Holds u ∧ EndsWithin visit (d + 1) u ∧ ¬ EndsWithin visit d u := by
  rw [EndsWithin] at hn
  push Not at hn
  obtain ⟨s, hs, hn⟩ := hn
  obtain ⟨u, hu, he, hne⟩ := Scan.exists_holds_of_visits (h s hs) hn fun w hw => hw.succ.1
  exact ⟨s, u, hs, hu, he, hne⟩

/-! ## Walks among finitely many values -/

section
variable {values : List V} (hvalues : ∀ v s, visit v = .ok (.descend s) → v ∈ values)
include hvalues

/-- The values that a walk of `d` descents hands over at take different numbers of levels. -/
theorem exists_nodup_of_endsWithin (h : EndsWithin visit (d + 1) v) (hn : ¬ EndsWithin visit d v) :
    ∃ vs : List V, vs.Nodup ∧ vs ⊆ values ∧ vs.length = d ∧ ∀ u ∈ vs, EndsWithin visit (d + 1) u := by
  induction d generalizing v with
  | zero => exact ⟨[], List.nodup_nil, List.nil_subset _, rfl, fun u hu => by cases hu⟩
  | succ d ih =>
    obtain ⟨s, u, hs, -, hu, hnu⟩ := exists_operand_endsWithin h hn
    obtain ⟨vs, hnodup, hsub, hlen, hends⟩ := ih hu hnu
    have hv : v ∉ vs := fun hm => hn (hends v hm)
    refine ⟨v :: vs, List.nodup_cons.2 ⟨hv, hnodup⟩, List.cons_subset.2 ⟨hvalues v s hs, hsub⟩, ?_, ?_⟩
    · rw [List.length_cons, hlen]
    · intro w hw
      rcases List.mem_cons.1 hw with rfl | hw
      · exact h
      · exact (hends w hw).succ.2

/-- A walk that ends at all ends within one more level than there are values. -/
theorem EndsWithin.bound (h : EndsWithin visit d v) : EndsWithin visit (values.length + 1) v := by
  classical
  have hex : ∃ d, EndsWithin visit d v := ⟨d, h⟩
  have hfind := Nat.find_spec hex
  suffices hle : Nat.find hex ≤ values.length + 1 from (hfind.le hle).2
  -- the least depth that suffices is not zero, and one less does not suffice
  cases hd : Nat.find hex with
  | zero => rw [hd] at hfind; exact hfind.elim
  | succ k =>
    rw [hd] at hfind
    have hk : ¬ EndsWithin visit k v := Nat.find_min hex (by omega)
    obtain ⟨vs, hnodup, hsub, hlen, -⟩ := exists_nodup_of_endsWithin hvalues hfind hk
    have hle := (List.subperm_of_subset hnodup hsub).length_le
    omega

theorem walk_stable (hd : values.length < d) (hd' : values.length < d') (v : V) :
    walk visit d v = walk visit d' v := by
  by_cases h : ∃ k, EndsWithin visit k v
  · obtain ⟨k, hk⟩ := h
    have hb := EndsWithin.bound hvalues hk
    exact (hb.le hd).1.trans (hb.le hd').1.symm
  · push Not at h
    rw [walk_eq_error (h d), walk_eq_error (h d')]

theorem walk_eq (v : V) : walk visit (values.length + 1) v =
    visit v >>= Visit.resolve (walk visit (values.length + 1)) :=
  walk_stable hvalues (Nat.lt_succ_self _) (Nat.lt_succ_of_lt (Nat.lt_succ_self _)) v

end

/-! ## Walks over related values -/

theorem walk_congr {visit' : W → Except Fault (Visit W)} {R : V → W → Prop}
    (h : ∀ v w, R v w → ReadAlike (Visit.Alike R) (visit v) (visit' w)) (d : Nat) {v : V} {w : W}
    (hr : R v w) : walk visit d v = walk visit' d w := by
  induction d generalizing v w with
  | zero => rfl
  | succ d ih => exact (h v w hr).bind_eq fun x y hx => hx.resolve_eq fun u u' hu => ih hu

end

end Lanewise
