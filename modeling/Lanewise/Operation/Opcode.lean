/-
The primitive opcodes: their names as written, and the group each belongs to. `Opcode.catalog` lists
them all, in the order of the groups, and a name is read by looking it up there.
-/
import Lanewise.Text.UnknownWord

namespace Lanewise

inductive Opcode where
  | ret | br | switch | indirectBr | unreachable
  | fneg | add | fadd | sub | fsub | mul | fmul | udiv | sdiv | fdiv | urem | srem | frem
  | shl | lshr | ashr | and | or | xor
  | alloca | load | store | getElementPtr | fence
  | trunc | zext | sext | fpToUI | fpToSI | uiToFP | siToFP | fpTrunc | fpExt | ptrToInt | intToPtr
  | bitCast
  | icmp | fcmp | phi | select | call | vaArg | extractElement | insertElement | shuffleVector
  | extractValue | insertValue
  deriving DecidableEq, Repr

inductive OpcodeGroup where
  | terminator
  | arithmetic
  | bitwise
  | memory
  | cast
  | other
  deriving DecidableEq, Repr

namespace Opcode

def catalog : List Opcode :=
  [.ret, .br, .switch, .indirectBr, .unreachable, .fneg, .add, .fadd, .sub, .fsub, .mul, .fmul, .udiv, .sdiv,
    .fdiv, .urem, .srem, .frem, .shl, .lshr, .ashr, .and, .or, .xor, .alloca, .load, .store, .getElementPtr,
    .fence, .trunc, .zext, .sext, .fpToUI, .fpToSI, .uiToFP, .siToFP, .fpTrunc, .fpExt, .ptrToInt, .intToPtr,
    .bitCast, .icmp, .fcmp, .phi, .select, .call, .vaArg, .extractElement, .insertElement, .shuffleVector,
    .extractValue, .insertValue]

def name : Opcode → String
  | .ret => "ret"
  | .br => "br"
  | .switch => "switch"
  | .indirectBr => "indirectbr"
  | .unreachable => "unreachable"
  | .fneg => "fneg"
  | .add => "add"
  | .fadd => "fadd"
  | .sub => "sub"
  | .fsub => "fsub"
  | .mul => "mul"
  | .fmul => "fmul"
  | .udiv => "udiv"
  | .sdiv => "sdiv"
  | .fdiv => "fdiv"
  | .urem => "urem"
  | .srem => "srem"
  | .frem => "frem"
  | .shl => "shl"
  | .lshr => "lshr"
  | .ashr => "ashr"
  | .and => "and"
  | .or => "or"
  | .xor => "xor"
  | .alloca => "alloca"
  | .load => "load"
  | .store => "store"
  | .getElementPtr => "getelementptr"
  | .fence => "fence"
  | .trunc => "trunc"
  | .zext => "zext"
  | .sext => "sext"
  | .fpToUI => "fptoui"
  | .fpToSI => "fptosi"
  | .uiToFP => "uitofp"
  | .siToFP => "sitofp"
  | .fpTrunc => "fptrunc"
  | .fpExt => "fpext"
  | .ptrToInt => "ptrtoint"
  | .intToPtr => "inttoptr"
  | .bitCast => "bitcast"
  | .icmp => "icmp"
  | .fcmp => "fcmp"
  | .phi => "phi"
  | .select => "select"
  | .call => "call"
  | .vaArg => "va_arg"
  | .extractElement => "extractelement"
  | .insertElement => "insertelement"
  | .shuffleVector => "shufflevector"
  | .extractValue => "extractvalue"
  | .insertValue => "insertvalue"

def group : Opcode → OpcodeGroup
  | .ret | .br | .switch | .indirectBr | .unreachable => .terminator
  | .fneg | .add | .fadd | .sub | .fsub | .mul | .fmul | .udiv | .sdiv | .fdiv | .urem | .srem
  | .frem => .arithmetic
  | .shl | .lshr | .ashr | .and | .or | .xor => .bitwise
  | .alloca | .load | .store | .getElementPtr | .fence => .memory
  | .trunc | .zext | .sext | .fpToUI | .fpToSI | .uiToFP | .siToFP | .fpTrunc | .fpExt | .ptrToInt
  | .intToPtr | .bitCast => .cast
  | _ => .other

/-- Terminators end a block and give no value. -/
def isTerminator (op : Opcode) : Bool :=
  op.group == .terminator

/-- Casts turn one operand into a value of another type. -/
def isCast (op : Opcode) : Bool :=
  op.group == .cast

def ofName (word : String) : Except Text.UnknownWord Opcode :=
  match catalog.find? (·.name == word) with
  | some op => .ok op
  | none => .error ⟨.opcode, word⟩

theorem mem_catalog (op : Opcode) : op ∈ catalog := by
  cases op <;> decide

theorem ofName_name (op : Opcode) : ofName op.name = .ok op := by
  have h : ∀ j ∈ catalog, catalog.find? (·.name == j.name) = some j := by decide +kernel
  simp [ofName, h op (mem_catalog op)]

end Opcode

end Lanewise
