/-
Access chains as indices. A chain is converted up to its first value that is no integer literal or up to the end
of the output, and a value that is no literal is noticed before the output is looked at (`chain_converted`).
-/
import Lanewise.Proofs.Analysis.Reports

namespace Lanewise

/-! ## One value of a chain -/

namespace View

variable {V T : Type} {view : View V T} {position : Nat} {v : V} {chain : List V} {out : List UInt32}

theorem convertFrom_literal {value : Int64} (h : view.intLiteral v = .ok (some value)) (x : UInt32) :
    view.convertFrom position (v :: chain) (x :: out) =
      ⟨narrowUnsigned value :: (view.convertFrom (position + 1) chain out).out,
        (view.convertFrom (position + 1) chain out).query⟩ := by
  simp only [convertFrom, h]

theorem convertFrom_stop (h : view.intLiteral v = .ok none) : view.convertFrom position (v :: chain) out =
    ⟨out, ⟨[.chainStopped position], .ok (.error ⟨position⟩)⟩⟩ := by
  simp only [convertFrom, h]
  rfl

theorem convertFrom_short {value : Int64} (h : view.intLiteral v = .ok (some value)) :
    view.convertFrom position (v :: chain) [] = ⟨[], Query.fail .outputTooShort⟩ := by
  simp only [convertFrom, h]

end View

/-! ## Literals of a chain -/

namespace Graph

variable {g : Graph} {v : ValueId} {value : Int64} {chain : List ValueId} {out out' : List UInt32} {n : Nat}

/-- The value is there and is the integer literal. -/
def IsLiteral (g : Graph) (v : ValueId) (value : Int64) : Prop :=
  ∃ node ∈ g.node? v, node.content = .int value

/-- How many integer literals a chain starts with. -/
def leadingLiterals (g : Graph) (chain : List ValueId) : Nat :=
  chain.findIdx fun v => g.Misread .constantInt v

theorem IsLiteral.intLiteral_eq (h : g.IsLiteral v value) : g.view.intLiteral v = .ok (some value) := by
  obtain ⟨node, hn, hc⟩ := h
  rw [(reads hn).intLiteral, hc]
  rfl

theorem IsLiteral.not_misread (h : g.IsLiteral v value) : ¬ g.Misread .constantInt v := by
  obtain ⟨node, hn, hc⟩ := h
  rw [misread_iff hn, hc]
  simp [Content.kind]

theorem misread_or_isLiteral (hv : g.HasValue v) : g.Misread .constantInt v ∨ ∃ value, g.IsLiteral v value := by
  obtain ⟨node, hn⟩ := hv
  rw [misread_iff hn]
  cases hc : node.content with
  | int value => exact .inr ⟨value, node, hn, hc⟩
  | _ => left; simp [Content.kind]

theorem leadingLiterals_le_length : g.leadingLiterals chain ≤ chain.length :=
  List.findIdx_le_length

theorem leadingLiterals_of_misread (h : g.Misread .constantInt v) : g.leadingLiterals (v :: chain) = 0 := by
  simp [leadingLiterals, List.findIdx_cons, h]

theorem leadingLiterals_of_isLiteral (h : g.IsLiteral v value) :
    g.leadingLiterals (v :: chain) = g.leadingLiterals chain + 1 := by
  simp [leadingLiterals, List.findIdx_cons, h.not_misread]

/-! ## Entries of an output -/

/-- The first `n` entries of an output hold the literals of the chain modulo `2 ^ 32`, the others what they held. -/
structure Writes (g : Graph) (chain : List ValueId) (n : Nat) (out out' : List UInt32) : Prop where
  length : out'.length = out.length
  written : ∀ i < n, ∃ v ∈ chain[i]?, ∃ value, g.IsLiteral v value ∧
    ∃ index ∈ out'[i]?, (index.toNat : Int) = value.toInt % 2 ^ 32
  kept : ∀ i, n ≤ i → out'[i]? = out[i]?

namespace Writes

theorem none : g.Writes chain 0 out out :=
  ⟨rfl, fun i hi => absurd hi (Nat.not_lt_zero i), fun _ _ => rfl⟩

theorem cons (hl : g.IsLiteral v value) (x : UInt32) (h : g.Writes chain n out out') :
    g.Writes (v :: chain) (n + 1) (x :: out) (narrowUnsigned value :: out') := by
  refine ⟨by simp [h.length], ?_, ?_⟩
  · rintro (_ | i) hi
    · exact ⟨v, rfl, value, hl, narrowUnsigned value, rfl, toNat_narrowUnsigned value⟩
    · exact h.written i (by omega)
  · rintro (_ | i) hi
    · omega
    · exact h.kept i (by omega)

theorem exists_entry (h : g.Writes chain n out out') {i : Nat} (hi : i < n) (hv : chain[i]? = some v) :
    ∃ value, g.IsLiteral v value ∧ ∃ index ∈ out'[i]?, (index.toNat : Int) = value.toInt % 2 ^ 32 := by
  obtain ⟨w, hw, hvalue⟩ := h.written i hi
  cases hv.symm.trans hw
  exact hvalue

end Writes

/-! ## The whole chain -/

/-- With an entry for each of its leading literals a chain is answered: they are written, and behind them the chain
ends or stops. -/
theorem convertFrom_of_le (hv : ∀ v ∈ chain, g.HasValue v) (position : Nat)
    (hle : g.leadingLiterals chain ≤ out.length) :
    g.Writes chain (g.leadingLiterals chain) out (g.view.convertFrom position chain out).out ∧
      (g.view.convertFrom position chain out).query =
        if g.leadingLiterals chain = chain.length then ⟨[], .ok (.ok (position + chain.length))⟩
        else ⟨[.chainStopped (position + g.leadingLiterals chain)],
          .ok (.error ⟨position + g.leadingLiterals chain⟩)⟩ := by
  induction chain generalizing position out with
  | nil => exact ⟨.none, rfl⟩
  | cons v chain ih =>
    rw [List.forall_mem_cons] at hv
    rcases misread_or_isLiteral hv.1 with hm | ⟨value, hl⟩
    · rw [View.convertFrom_stop (intLiteral_eq_none_iff.2 hm), leadingLiterals_of_misread hm]
      exact ⟨.none, rfl⟩
    · rw [leadingLiterals_of_isLiteral hl] at hle ⊢
      cases out with
      | nil => simp at hle
      | cons x out =>
        obtain ⟨hw, hq⟩ := ih hv.2 (position + 1) (Nat.le_of_succ_le_succ hle)
        rw [View.convertFrom_literal hl.intLiteral_eq]
        refine ⟨hw.cons hl x, hq.trans ?_⟩
        simp only [List.length_cons, Nat.add_right_cancel_iff, Nat.add_assoc, Nat.add_comm 1]

/-- With fewer entries than leading literals every entry is written, and the next literal faults. -/
theorem convertFrom_of_lt (hv : ∀ v ∈ chain, g.HasValue v) (position : Nat)
    (hlt : out.length < g.leadingLiterals chain) :
    g.Writes chain out.length out (g.view.convertFrom position chain out).out ∧
      (g.view.convertFrom position chain out).query = Query.fail .outputTooShort := by
  induction chain generalizing position out with
  | nil => simp [leadingLiterals] at hlt
  | cons v chain ih =>
    rw [List.forall_mem_cons] at hv
    rcases misread_or_isLiteral hv.1 with hm | ⟨value, hl⟩
    · rw [leadingLiterals_of_misread hm] at hlt
      omega
    · cases out with
      | nil =>
        rw [View.convertFrom_short hl.intLiteral_eq]
        exact ⟨.none, rfl⟩
      | cons x out =>
        rw [leadingLiterals_of_isLiteral hl] at hlt
        obtain ⟨hw, hq⟩ := ih hv.2 (position + 1) (Nat.lt_of_succ_lt_succ hlt)
        rw [View.convertFrom_literal hl.intLiteral_eq]
        exact ⟨hw.cons hl x, hq⟩

theorem exists_converted_entry (hv : ∀ v ∈ chain, g.HasValue v) {i : Nat} (hi : i < g.leadingLiterals chain)
    (ho : i < out.length) (hc : chain[i]? = some v) : ∃ value, g.IsLiteral v value ∧
      ∃ index ∈ (g.view.convertIndices chain out).out[i]?, (index.toNat : Int) = value.toInt % 2 ^ 32 := by
  by_cases hle : g.leadingLiterals chain ≤ out.length
  · exact (convertFrom_of_le hv 0 hle).1.exists_entry hi hc
  · exact (convertFrom_of_lt hv 0 (by omega)).1.exists_entry ho hc

theorem leadingLiterals_le_replicate (x : UInt32) :
    g.leadingLiterals chain ≤ (List.replicate chain.length x).length := by
  rw [List.length_replicate]
  exact leadingLiterals_le_length

theorem collectIndices_of_eq (hv : ∀ v ∈ chain, g.HasValue v) (hp : g.leadingLiterals chain = chain.length) :
    ∃ indices, g.view.collectIndices chain = ⟨[], .ok (.ok indices)⟩ ∧
      g.Writes chain chain.length (List.replicate chain.length 0) indices := by
  obtain ⟨hw, hq⟩ := convertFrom_of_le hv 0 (leadingLiterals_le_replicate 0)
  rw [if_pos hp] at hq
  rw [hp] at hw
  refine ⟨_, ?_, hw⟩
  rw [View.collectIndices, View.convertIndices, hq]
  rfl

theorem collectIndices_of_ne (hv : ∀ v ∈ chain, g.HasValue v) (hp : g.leadingLiterals chain ≠ chain.length) :
    g.view.collectIndices chain =
      ⟨[.chainStopped (g.leadingLiterals chain)], .ok (.error ⟨g.leadingLiterals chain⟩)⟩ := by
  obtain ⟨-, hq⟩ := convertFrom_of_le hv 0 (leadingLiterals_le_replicate 0)
  rw [if_neg hp, Nat.zero_add] at hq
  rw [View.collectIndices, View.convertIndices, hq]
  rfl

/-- What becomes of a chain that starts with `p` literals, in any output and in one of its own. -/
structure Converted (g : Graph) (chain : List ValueId) (p : Nat) : Prop where
  answered : ∀ out : List UInt32, p ≤ out.length →
    (g.view.convertIndices chain out).query =
      (if p = chain.length then ⟨[], .ok (.ok chain.length)⟩ else ⟨[.chainStopped p], .ok (.error ⟨p⟩)⟩) ∧
    g.Writes chain p out (g.view.convertIndices chain out).out
  short : ∀ out : List UInt32, out.length < p →
    (g.view.convertIndices chain out).query = ⟨[], .error .outputTooShort⟩ ∧
    g.Writes chain out.length out (g.view.convertIndices chain out).out
  collected : p = chain.length → ∃ indices, g.view.collectIndices chain = ⟨[], .ok (.ok indices)⟩ ∧
    indices.length = chain.length ∧ ∀ (i : Nat) v, chain[i]? = some v → ∃ value, g.IsLiteral v value ∧
      ∃ index ∈ indices[i]?, (index.toNat : Int) = value.toInt % 2 ^ 32
  stopped : p ≠ chain.length →
    g.view.collectIndices chain = ⟨[.chainStopped p], .ok (.error ⟨p⟩)⟩

/-- A chain of values of a graph is converted as far as it starts with literals and the output has room. -/
theorem chain_converted (hv : ∀ v ∈ chain, g.HasValue v) : g.Converted chain (g.leadingLiterals chain) where
  answered := by
    intro out hle
    obtain ⟨hw, hq⟩ := convertFrom_of_le hv 0 hle
    rw [Nat.zero_add, Nat.zero_add] at hq
    exact ⟨hq, hw⟩
  short := by
    intro out hlt
    obtain ⟨hw, hq⟩ := convertFrom_of_lt hv 0 hlt
    exact ⟨hq, hw⟩
  collected := by
    intro hp
    obtain ⟨indices, hq, hw⟩ := collectIndices_of_eq hv hp
    refine ⟨indices, hq, by simpa using hw.length, fun i v hi => hw.exists_entry ?_ hi⟩
    exact (List.getElem?_eq_some_iff.1 hi).1
  stopped := collectIndices_of_ne hv

/-- Two literals, the first of more than 32 bits, and an argument. -/
def indexed : Graph :=
  [.intType 64, .constInt ⟨0⟩ 0x100000007, .constInt ⟨0⟩ (-1), .argument ⟨0⟩ "i"].foldl after empty

/-- The argument is noticed where the output ends, and a literal past the end of the output is not. -/
theorem chain_converted_indexed : (∀ v ∈ [(⟨0⟩ : ValueId), ⟨1⟩, ⟨2⟩, ⟨0⟩], indexed.HasValue v) ∧
    indexed.Converted [⟨0⟩, ⟨1⟩, ⟨2⟩, ⟨0⟩] 2 ∧
    (indexed.view.convertIndices [⟨0⟩, ⟨1⟩, ⟨2⟩, ⟨0⟩] [5, 5]).query.answer = .ok (.error ⟨2⟩) ∧
    (indexed.view.convertIndices [⟨0⟩, ⟨1⟩, ⟨2⟩, ⟨0⟩] [5, 5, 5]).out = [7, 0xFFFFFFFF, 5] ∧
    (indexed.view.convertIndices [⟨0⟩, ⟨1⟩, ⟨2⟩, ⟨0⟩] [5]).query.answer = .error .outputTooShort := by
  have hv : ∀ v ∈ [(⟨0⟩ : ValueId), ⟨1⟩, ⟨2⟩, ⟨0⟩], indexed.HasValue v := by
    intro v hm
    apply exists_node?
    revert v
    decide +kernel
  have hp : indexed.leadingLiterals [⟨0⟩, ⟨1⟩, ⟨2⟩, ⟨0⟩] = 2 := by decide +kernel
  exact ⟨hv, hp ▸ chain_converted hv, by decide +kernel, by decide +kernel, by decide +kernel⟩

end Graph

end Lanewise
