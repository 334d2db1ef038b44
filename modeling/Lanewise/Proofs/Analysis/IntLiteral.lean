/-
Integer literals. A type of `b` bits stores a number as the one number of `b` signed bits that is congruent to it,
and a literal is read, as a signed number or as an index, as the 32 bits congruent to it (`widths_kept`).
-/
import Lanewise.Proofs.Analysis.Indices
import Lanewise.Proofs.Graph.Types

namespace Lanewise

theorem StandsFor.widen {bits : Nat} {s x : Int} (h : StandsFor bits s x) (h32 : bits ≤ 32) : StandsFor 32 s s := by
  have hle : (2 : Int) ^ (bits - 1) ≤ 2 ^ (32 - 1) := pow_le_pow_right₀ (by norm_num) (by omega)
  refine ⟨rfl, ?_, ?_⟩
  · linarith only [h.lower, hle]
  · linarith only [h.upper, hle]

namespace Graph

variable {g : Graph} {t : TypeId} {v : ValueId} {node : Node} {bits : Nat} {s : Int64}

/-! ## Storing -/

/-- The literal that a number is stored as: what the value that is made of it holds. -/
def stored? (g : Graph) (t : TypeId) (x : Int64) : Option Int64 :=
  match (Command.constInt t x).perform g with
  | (.ok (.value v), g') => (g'.node? v).bind fun node => node.content.intLiteral?
  | _ => none

theorem stored?_eq (hf : g.types.form? t = some (.int bits)) (x : Int64) :
    g.stored? t x = some (signExtend bits x) := by
  have hp : (Command.constInt t x).perform g =
      (.ok (.value ⟨g.size⟩), g.withNode { type := t, content := .int (signExtend bits x) }) :=
    perform_eq_ok_iff.2 (.value (.constInt hf))
  simp [stored?, hp, Content.intLiteral?]

/-- How a type of `bits` bits stores numbers: each as the one of the width that stands for it. -/
structure StoresWidth (g : Graph) (t : TypeId) (bits : Nat) : Prop where
  stands : ∀ x : Int64, ∃ s, g.stored? t x = some s ∧ StandsFor bits s.toInt x.toInt ∧
    ∀ r, StandsFor bits r x.toInt → r = s.toInt
  shifts : ∀ x : Int64, g.stored? t x = some ((x <<< Int64.ofNat (64 - bits)) >>> Int64.ofNat (64 - bits))
  same_iff : ∀ (g' : Graph) (t' : TypeId), g'.types.form? t' = some (.int bits) →
    ∀ x y : Int64, g.stored? t x = g'.stored? t' y ↔ x.toInt ≡ y.toInt [ZMOD 2 ^ bits]
  again : ∀ (g' : Graph) (t' : TypeId), g'.types.form? t' = some (.int bits) →
    ∀ x s : Int64, g.stored? t x = some s → g'.stored? t' s = some s

theorem WF.storesWidth (hw : g.WF) (hf : g.types.form? t = some (.int bits)) : g.StoresWidth t bits := by
  obtain ⟨h1, h64⟩ := hw.types.admissible _ _ hf
  constructor
  case stands =>
    intro x
    refine ⟨_, stored?_eq hf x, standsFor_signExtend h1 h64 x, fun r hr => ?_⟩
    rw [toInt_signExtend h1 h64]
    exact (standsFor_iff h1).1 hr
  case shifts =>
    intro x
    rw [stored?_eq hf, signExtend_eq_shifts h1 h64]
  case same_iff =>
    intro g' t' hf' x y
    rw [stored?_eq hf, stored?_eq hf', Option.some.injEq]
    exact signExtend_eq_signExtend_iff h1 h64 x y
  case again =>
    intro g' t' hf' x s hs
    rw [stored?_eq hf] at hs
    cases hs
    rw [stored?_eq hf', signExtend_eq_self h1 h64 (standsFor_signExtend h1 h64 x)]

/-! ## Reading -/

/-- How a literal `s` of `bits` bits is read: as the number `r` of 32 signed bits that stands for it, and as an
index of the same bits. -/
structure ReadsWidth (g : Graph) (t : TypeId) (bits : Nat) (v : ValueId) (s : Int64) (r : Int32) : Prop where
  signed : g.view.constantInt v = ⟨[], .ok r⟩
  stands : StandsFor 32 r.toInt s.toInt
  index : ∀ (chain : List ValueId) (out : List UInt32) (i : Nat), (∀ w ∈ chain, g.HasValue w) →
    i < g.leadingLiterals chain → i < out.length → chain[i]? = some v →
    ∃ index ∈ (g.view.convertIndices chain out).out[i]?,
      (index.toNat : Int) ≡ s.toInt [ZMOD 2 ^ 32] ∧ index.toBitVec = r.toBitVec
  itself : bits ≤ 32 → r.toInt = s.toInt ∧ g.stored? t r.toInt64 = some s

theorem constantInt_eq_narrow (hn : g.node? v = some node) (hc : node.content = .int s) :
    g.view.constantInt v = ⟨[], .ok (narrow s)⟩ := by
  rw [View.constantInt, (reads hn).intLiteral, hc]
  rfl

theorem eq_narrowUnsigned {index : UInt32} (h : (index.toNat : Int) = s.toInt % 2 ^ 32) :
    index = narrowUnsigned s := by
  apply UInt32.toNat_inj.1
  have hs := toNat_narrowUnsigned s
  omega

theorem WF.literal_standsFor (hw : g.WF) (hn : g.node? v = some node) (hc : node.content = .int s)
    (hf : g.types.form? node.type = some (.int bits)) : StandsFor bits s.toInt s.toInt := by
  have hfit := hw.fits v node hn
  rw [hc] at hfit
  obtain ⟨bits', hf', hlo, hhi⟩ := hfit
  cases hf.symm.trans hf'
  exact ⟨rfl, hlo, hhi⟩

theorem WF.readsWidth (hw : g.WF) (hn : g.node? v = some node) (hc : node.content = .int s)
    (hf : g.types.form? node.type = some (.int bits)) : g.ReadsWidth node.type bits v s (narrow s) := by
  obtain ⟨h1, h64⟩ := hw.types.admissible _ _ hf
  have hfits : StandsFor bits s.toInt s.toInt := hw.literal_standsFor hn hc hf
  constructor
  case signed => exact constantInt_eq_narrow hn hc
  case stands => exact (standsFor_iff (by decide)).2 (toInt_narrow s)
  case index =>
    intro chain out i hv hi ho hi'
    obtain ⟨value, ⟨m, hm, hvalue⟩, index, hindex, hmod⟩ := exists_converted_entry hv hi ho hi'
    -- the literal that the chain finds at the value is the one it holds
    cases hn.symm.trans hm
    cases hc.symm.trans hvalue
    refine ⟨index, hindex, ?_, ?_⟩
    · rw [hmod]
      exact Int.mod_modEq _ _
    · rw [eq_narrowUnsigned hmod, toBitVec_narrow]
  case itself =>
    intro h32
    have hself : (narrow s).toInt = s.toInt := by
      rw [toInt_narrow]
      exact ((standsFor_iff (by decide)).1 (hfits.widen h32)).symm
    have hword : (narrow s).toInt64 = s := by
      apply Int64.toInt_inj.1
      rw [Int32.toInt_toInt64, hself]
    refine ⟨hself, ?_⟩
    rw [hword, stored?_eq hf, signExtend_eq_self h1 h64 hfits]

/-! ## Every width -/

theorem WF.exists_intType (hw : g.WF) (h1 : 1 ≤ bits) (h64 : bits ≤ 64) :
    ∃ t, (Command.intType bits).perform g = (.ok (.type t), g.after (.intType bits)) ∧
      (g.after (.intType bits)).types.form? t = some (.int bits) := by
  have hp := perform_eq_ok_iff.2 (Accepts.type (c := .intType bits) (g := g) rfl ⟨h1, h64⟩)
  have ha : g.after (.intType bits) = g.withForm (.int bits) := by rw [after, hp]
  refine ⟨(g.types.intern (.int bits)).1, ?_, ?_⟩
  · rw [ha]
    exact hp
  · rw [ha]
    exact hw.form?_of_perform rfl hp

/-- Every width from 1 to 64 has a type on every graph, or is given one; numbers are stored modulo the width, and
every literal is read modulo 32 bits. -/
theorem widths_kept (h : g.Reachable) (h1 : 1 ≤ bits) (h64 : bits ≤ 64) :
    (∃ t, (Command.intType bits).perform g = (.ok (.type t), g.after (.intType bits)) ∧
      (g.after (.intType bits)).types.form? t = some (.int bits)) ∧
    ∀ t, g.types.form? t = some (.int bits) → g.StoresWidth t bits ∧
      ∀ v node s, g.node? v = some node → node.type = t → node.content = .int s → ∃ r, g.ReadsWidth t bits v s r := by
  refine ⟨h.wf.exists_intType h1 h64, fun t hf => ⟨h.wf.storesWidth hf, ?_⟩⟩
  rintro v node s hn rfl hc
  exact ⟨narrow s, h.wf.readsWidth hn hc hf⟩

/-- Of 64 bits, `0x100000007` is stored as it is and read as 7. -/
theorem widths_kept_indexed : indexed.Reachable ∧ 1 ≤ 64 ∧ 64 ≤ 64 ∧ indexed.types.form? ⟨0⟩ = some (.int 64) ∧
    indexed.StoresWidth ⟨0⟩ 64 ∧ (∃ r, indexed.ReadsWidth ⟨0⟩ 64 ⟨0⟩ 0x100000007 r) ∧
    (indexed.view.constantInt ⟨0⟩).answer = .ok 7 := by
  have hr : indexed.Reachable := Reachable.empty.foldl_after _
  have hf : indexed.types.form? ⟨0⟩ = some (.int 64) := by decide +kernel
  have hn : indexed.node? ⟨0⟩ = some { type := ⟨0⟩, content := .int 0x100000007 } := by decide +kernel
  have h64 : 1 ≤ 64 ∧ 64 ≤ 64 := by decide
  obtain ⟨-, hwidth⟩ := widths_kept hr h64.1 h64.2
  obtain ⟨hstores, hreads⟩ := hwidth ⟨0⟩ hf
  exact ⟨hr, h64.1, h64.2, hf, hstores, hreads _ _ _ hn rfl rfl, by decide +kernel⟩

end Graph

end Lanewise
