/-
Float literals. A literal holds the number of its precision that is nearest to the double it is made of, and it is
exact from then on (`floats_rounded_once`).
-/
import Lanewise.Analysis.Literal
import Lanewise.Proofs.Graph.Operands
import Lanewise.Proofs.Number.Conversion
import Lanewise.Proofs.View.Graph

namespace Lanewise

theorem Precision.within_double (p : Precision) : p.Within .double := by
  cases p with
  | half => exact half_within_double
  | single => exact single_within_double
  | double => exact .refl _

theorem Precision.within_single {p : Precision} (h : p ≠ .double) : p.Within .single := by
  cases p with
  | half => exact half_within_single
  | single => exact .refl _
  | double => exact absurd rfl h

namespace FloatLiteral

variable {p : Precision} {x : Binary .double}

/-! ## Making -/

/-- What a literal of a precision keeps of the double that it is made of. -/
structure RoundedOnce (p : Precision) (x : Binary .double) (l : FloatLiteral) : Prop where
  precision : l.precision = p
  rounded : ∃ y : Binary p, Binary.Rounds p x.meaning y ∧ l.toDouble.meaning = y.meaning
  kept : (∃ y : Binary p, y.meaning = x.meaning) → l.toDouble = x
  again : ofDouble p l.toDouble = l
  same : p ≠ .double → l.toSingle.meaning = l.toDouble.meaning
  widened : p ≠ .double → l.toSingle.convert .double = l.toDouble
  single : p ≠ .double → (ofDouble .single l.toDouble).toDouble = l.toDouble

theorem meaning_toDouble (p : Precision) (x : Binary .double) :
    (ofDouble p x).toDouble.meaning = (x.convert p).meaning :=
  Binary.meaning_convert p.within_double (x.convert p)

theorem meaning_toSingle (h : p ≠ .double) (x : Binary .double) :
    (ofDouble p x).toSingle.meaning = (ofDouble p x).toDouble.meaning := by
  obtain ⟨y, hy⟩ := Binary.exists_meaning_eq (Precision.within_single h) (x.convert p)
  have hvalue : (ofDouble p x).toDouble.meaning = y.meaning := (meaning_toDouble p x).trans hy.symm
  have hsingle : (ofDouble p x).toSingle = y := Binary.convert_eq_of_meaning hvalue
  rw [hsingle, hvalue]

theorem roundedOnce (p : Precision) (x : Binary .double) : (ofDouble p x).RoundedOnce p x := by
  have hwidened : p ≠ .double → (ofDouble p x).toSingle.convert .double = (ofDouble p x).toDouble :=
    fun h => Binary.convert_eq_of_meaning (meaning_toSingle h x)
  constructor
  case precision => rfl
  case rounded => exact ⟨x.convert p, Binary.convert_rounds x p, meaning_toDouble p x⟩
  case kept =>
    rintro ⟨y, hy⟩
    have hx : x.convert p = y := Binary.convert_eq_of_meaning hy.symm
    have hkept : (x.convert p).meaning = x.meaning := by rw [hx, hy]
    exact Binary.convert_eq_of_meaning hkept
  case again =>
    have hback : (ofDouble p x).toDouble.convert p = x.convert p :=
      Binary.convert_convert_of_within p.within_double (x.convert p)
    rw [ofDouble, hback]
    rfl
  case same => exact fun h => meaning_toSingle h x
  case widened => exact hwidened
  case single => exact hwidened

end FloatLiteral

namespace Graph

variable {g : Graph} {v : ValueId} {node : Node} {l : FloatLiteral}

/-! ## Reading -/

/-- How a float literal is read: without a report, as a number rounded once from some double. -/
structure ReadsFloat (g : Graph) (v : ValueId) (l : FloatLiteral) : Prop where
  typed : ∃ node ∈ g.node? v, g.types.form? node.type = some (.float l.precision)
  single : g.view.constantFloat v = ⟨[], .ok l.toSingle⟩
  double : g.view.constantDouble v = ⟨[], .ok l.toDouble⟩
  rounded : ∃ x, l.RoundedOnce l.precision x

theorem Reachable.exists_eq_ofDouble (h : g.Reachable) (hn : g.node? v = some node)
    (hc : node.content = .float l) : ∃ p x, l = .ofDouble p x := by
  induction h generalizing node with
  | empty => cases hn
  | @after g c _ ih =>
    rcases after_cases g c with he | ⟨r, ha⟩
    · exact ih (he ▸ hn) hc
    · rcases ha.content_cases hn with ⟨m, hm, -, hcontent⟩ | hs
      · exact ih hm (hcontent.trans hc)
      · rw [hc] at hs
        cases hs with
        | made hm =>
          cases hm with
          | constFloat hf => exact ⟨_, _, rfl⟩
        | given hp ho hi => cases hp

theorem Reachable.readsFloat (h : g.Reachable) (hn : g.node? v = some node) (hc : node.content = .float l) :
    g.ReadsFloat v l := by
  have hread : g.view.floatLiteral v = .ok (some l) := by rw [(reads hn).floatLiteral, hc]; rfl
  have hfit := h.wf.fits v node hn
  rw [hc] at hfit
  constructor
  case typed => exact ⟨node, hn, hfit⟩
  case single => rw [View.constantFloat, hread]; rfl
  case double => rw [View.constantDouble, hread]; rfl
  case rounded =>
    obtain ⟨p, x, rfl⟩ := h.exists_eq_ofDouble hn hc
    exact ⟨x, FloatLiteral.roundedOnce p x⟩

/-! ## Every precision -/

/-- A literal of any precision keeps any double rounded once and is exact from then on, and so is every float literal
of a graph, which is read as the number it holds. -/
theorem floats_rounded_once :
    (∀ p x, (FloatLiteral.ofDouble p x).RoundedOnce p x) ∧
    ∀ g : Graph, g.Reachable → ∀ v node l, g.node? v = some node → node.content = .float l → g.ReadsFloat v l :=
  ⟨FloatLiteral.roundedOnce, fun _ h _ _ _ hn hc => h.readsFloat hn hc⟩

/-- Literals of half precision: a tenth, a number that is too large, the smallest half, and two ties of it with zero,
one of them negative. -/
def halves : Graph :=
  [.floatType .half, .constFloat ⟨0⟩ (.ofBits .double 0x3FB999999999999A),
    .constFloat ⟨0⟩ (.ofBits .double 0x40F1170000000000), .constFloat ⟨0⟩ (.ofBits .double 0x3E70000000000000),
    .constFloat ⟨0⟩ (.ofBits .double 0x3E60000000000000),
    .constFloat ⟨0⟩ (.ofBits .double 0xBE60000000000000)].foldl after empty

/-- A tenth is read as the nearest half, in single precision and as a double. -/
theorem floats_rounded_once_halves : halves.Reachable ∧
    halves.node? ⟨0⟩ = some { type := ⟨0⟩, content := .float ⟨.half, .ofBits .double 0x3FB9980000000000⟩ } ∧
    halves.ReadsFloat ⟨0⟩ ⟨.half, .ofBits .double 0x3FB9980000000000⟩ ∧
    (FloatLiteral.ofDouble .half (.ofBits .double 0x3FB999999999999A)).toSingle = .ofBits .single 0x3DCCC000 ∧
    (FloatLiteral.ofDouble .half (.ofBits .double 0x3FB999999999999A)).RoundedOnce .half
      (.ofBits .double 0x3FB999999999999A) := by
  have hr : halves.Reachable := Reachable.empty.foldl_after _
  have hn : halves.node? ⟨0⟩ =
      some { type := ⟨0⟩, content := .float ⟨.half, .ofBits .double 0x3FB9980000000000⟩ } := by decide +kernel
  obtain ⟨hrounded, hreads⟩ := floats_rounded_once
  exact ⟨hr, hn, hreads halves hr _ _ _ hn rfl, by decide +kernel, hrounded _ _⟩

/-- What is too large is infinite, the ties go to zero and keep their signs. -/
example : ([1, 2, 3, 4].map fun i => (halves.view.constantFloat ⟨i⟩).answer.toOption) =
    [some (.infinite false), some (.ofBits .single 0x33800000), some (.number false 0), some (.number true 0)] := by
  decide +kernel

end Graph

end Lanewise
