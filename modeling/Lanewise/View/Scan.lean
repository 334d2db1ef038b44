/-
Values handed out one at a time. A question about a scan reads it only as far as its answer needs, so what comes
after the value that decides is never looked at.
-/
import Lanewise.Fault

namespace Lanewise

/-- A sequence read from the front: its end, a fault of the next read, or a value and what follows. -/
inductive Scan (V : Type) where
  | done
  | fault (f : Fault)
  | next (v : V) (rest : Unit → Scan V)

namespace Scan

variable {V : Type}

def ofList : List V → Scan V
  | [] => .done
  | v :: vs => .next v fun _ => ofList vs

/-- The values found at `n` positions from `i` on, in order; a position without one is skipped. -/
def ofPositions (value : Nat → Except Fault (Option V)) : Nat → Nat → Scan V
  | _, 0 => .done
  | i, n + 1 =>
    match value i with
    | .error f => .fault f
    | .ok none => ofPositions value (i + 1) n
    | .ok (some v) => .next v fun _ => ofPositions value (i + 1) n

def toList : Scan V → Except Fault (List V)
  | .done => return []
  | .fault f => throw f
  | .next v rest => do
    let vs ← toList (rest ())
    return v :: vs

/-- Whether a test holds of all values. The first value that fails it ends the reading. -/
def allM (test : V → Except Fault Bool) : Scan V → Except Fault Bool
  | .done => return true
  | .fault f => throw f
  | .next v rest => do
    if ← test v then allM test (rest ())
    else return false

/-! ## Scans and lists -/

@[simp] theorem toList_ofList (vs : List V) : (ofList vs).toList = .ok vs := by
  induction vs with
  | nil => rfl
  | cons v vs ih => rw [ofList, toList, ih]; rfl

/-- A scan that can be read to its end is asked like the list of its values. -/
theorem allM_eq_of_toList (test : V → Except Fault Bool) {s : Scan V} {vs : List V}
    (h : s.toList = .ok vs) : s.allM test = vs.allM test := by
  induction s generalizing vs with
  | done => cases h; rfl
  | fault f => cases h
  | next v rest ih =>
    cases hr : (rest ()).toList with
    | error f => rw [toList, hr] at h; cases h
    | ok ws =>
      rw [toList, hr] at h
      cases h
      rw [allM, List.allM]
      cases test v with
      | error f => rfl
      | ok b => cases b with
        | false => rfl
        | true => exact ih () hr

theorem ofPositions_eq_take_drop (vs : List V) (i n : Nat) :
    ofPositions (fun i => .ok vs[i]?) i n = ofList ((vs.drop i).take n) := by
  induction n generalizing i with
  | zero => rfl
  | succ n ih =>
    by_cases hi : i < vs.length
    · rw [ofPositions, List.getElem?_eq_getElem hi, List.drop_eq_getElem_cons hi, List.take_succ_cons, ofList]
      exact congrArg (Scan.next vs[i]) (funext fun _ => ih (i + 1))
    · have hlen := Nat.le_of_not_lt hi
      rw [ofPositions, List.getElem?_eq_none hlen, List.drop_eq_nil_of_le hlen]
      refine (ih (i + 1)).trans ?_
      rw [List.drop_eq_nil_of_le (Nat.le_succ_of_le hlen), List.take_nil, List.take_nil]

theorem ofPositions_getElem? (vs : List V) :
    ofPositions (fun i => .ok vs[i]?) 0 vs.length = ofList vs := by
  rw [ofPositions_eq_take_drop, List.drop_zero, List.take_length]

end Scan

end Lanewise
