/-
What stands in the dump for a value whose kind and payload do not fit: both of them, written out.
-/
import Lanewise.Graph.Value
import Lanewise.Number.Decimal

namespace Lanewise

/-! ## Capitalised names -/

def Kind.capitalized : Kind → String
  | .constantInt => "ConstantInt"
  | .constantFloat => "ConstantFloat"
  | .constantAggregate => "ConstantAggregate"
  | .constantExpr => "ConstantExpr"
  | .undef => "Undef"
  | .argument => "Argument"
  | .instruction => "Instruction"

def Precision.capitalized : Precision → String
  | .half => "Half"
  | .single => "Single"
  | .double => "Double"

/-- The name of an opcode with each of its words capitalised. -/
def Opcode.capitalized : Opcode → String
  | .indirectBr => "IndirectBr"
  | .fneg => "FNeg"
  | .fadd => "FAdd"
  | .fsub => "FSub"
  | .fmul => "FMul"
  | .udiv => "UDiv"
  | .sdiv => "SDiv"
  | .fdiv => "FDiv"
  | .urem => "URem"
  | .srem => "SRem"
  | .frem => "FRem"
  | .lshr => "LShr"
  | .ashr => "AShr"
  | .getElementPtr => "GetElementPtr"
  | .zext => "ZExt"
  | .sext => "SExt"
  | .fpToUI => "FPToUI"
  | .fpToSI => "FPToSI"
  | .uiToFP => "UIToFP"
  | .siToFP => "SIToFP"
  | .fpTrunc => "FPTrunc"
  | .fpExt => "FPExt"
  | .ptrToInt => "PtrToInt"
  | .intToPtr => "IntToPtr"
  | .bitCast => "BitCast"
  | .icmp => "ICmp"
  | .fcmp => "FCmp"
  | .vaArg => "VaArg"
  | .extractElement => "ExtractElement"
  | .insertElement => "InsertElement"
  | .shuffleVector => "ShuffleVector"
  | .extractValue => "ExtractValue"
  | .insertValue => "InsertValue"
  | opcode => opcode.name.capitalize

def Intrinsic.capitalized : Intrinsic → String
  | .umulExtended => "UMulExtended"
  | .smulExtended => "SMulExtended"
  | callee => callee.name.capitalize

/-! ## Numbers that are told from integers -/

/-- The digits with the point after the first of them, and an exponent. -/
def Decimal.scientific (d : Decimal) : String :=
  let digits := d.digits.repr.toList
  let fraction := (digits.tail.reverse.dropWhile (· == '0')).reverse
  String.ofList (digits.take 1 ++ if fraction.isEmpty then [] else '.' :: fraction) ++ "e" ++
    toString (d.exponent + digits.length - 1)

/-- The text of a number with a point in it, or with an exponent below `10 ^ -4` and from `10 ^ 16` on. -/
def Binary.pointed (x : Binary .double) : String :=
  match x with
  | .nan => x.display
  | .number negative magnitude =>
    if magnitude.val = Precision.double.infinity then x.display
    else if 0 < magnitude.val ∧ magnitude.val < 0x3F1A36E2EB1C432D ∨ 0x4341C37937E08000 ≤ magnitude.val then
      (if negative then "-" else "") ++ (Precision.double.shortest magnitude).scientific
    else if x.display.toList.contains '.' then x.display
    else x.display ++ ".0"

example : (Binary.ofBits .double 0x4341C37937E08000).pointed = "1e16" ∧
    (Binary.ofBits .double 0xBEF92A737110E454).pointed = "-2.4e-5" ∧
    (Binary.ofBits .double 0x4059000000000000).pointed = "100.0" := by decide +kernel

/-! ## Payloads -/

def Payload.capitalized : Payload → String
  | .none => "None"
  | .int value => "Int(" ++ toString value.toInt ++ ")"
  | .float literal =>
    "Float(FloatLiteral \x7b kind: " ++ literal.precision.capitalized ++ ", value: " ++ literal.toDouble.pointed ++
      " \x7d)"
  | .op opcode => "Op(" ++ opcode.capitalized ++ ")"
  | .intrinsic callee => "Intrinsic(" ++ callee.capitalized ++ ")"

def Payload.malformed (payload : Payload) (kind : Kind) : String :=
  "<malformed " ++ kind.capitalized ++ " " ++ payload.capitalized ++ ">"

example : (Payload.int (-1)).malformed .constantExpr = "<malformed ConstantExpr Int(-1)>" ∧
    (Payload.op .fpToUI).malformed .constantInt = "<malformed ConstantInt Op(FPToUI)>" := by decide +kernel

end Lanewise
