/-
Access chains as literal indices, up to the first value that is no folded integer literal.
-/
import Lanewise.Number.Word
import Lanewise.Query.Basic
import Lanewise.View.Basic

namespace Lanewise

/-- A chain that stopped, at the position of the first value that is no folded integer literal. -/
structure NonConstantIndex where
  position : Nat
  deriving DecidableEq, Repr

def NonConstantIndex.message (e : NonConstantIndex) : String :=
  "index " ++ toString e.position ++ " of the access chain is not a constant integer"

/-- An output after a conversion, with the number of indices written. It stands also after a fault. -/
structure Conversion where
  out : List UInt32
  query : Query (Except NonConstantIndex Nat)

namespace View

variable {V T : Type}

/-- Converts a chain whose first value has the given position. -/
def convertFrom (view : View V T) : Nat → List V → List UInt32 → Conversion
  | position, [], out => ⟨out, return .ok position⟩
  | position, v :: chain, out =>
    match view.intLiteral v with
    | .error fault => ⟨out, Query.fail fault⟩
    | .ok none =>
      ⟨out, do
        Query.tell (.chainStopped position)
        return .error ⟨position⟩⟩
    | .ok (some value) =>
      match out with
      | [] => ⟨[], Query.fail .outputTooShort⟩
      | _ :: out =>
        let rest := view.convertFrom (position + 1) chain out
        ⟨narrowUnsigned value :: rest.out, rest.query⟩

/-- Converts a chain into the front of an output. -/
def convertIndices (view : View V T) (chain : List V) (out : List UInt32) : Conversion :=
  view.convertFrom 0 chain out

/-- Converts a chain into an output of its own. -/
def collectIndices (view : View V T) (chain : List V) : Query (Except NonConstantIndex (List UInt32)) := do
  let conversion := view.convertIndices chain (List.replicate chain.length 0)
  match ← conversion.query with
  | .ok _ => return .ok conversion.out
  | .error e => return .error e

end View

end Lanewise
