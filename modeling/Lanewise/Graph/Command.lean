/-
Building as data: a command names one step with its arguments, and the graphs that building can reach
are those that some list of commands leads to from the empty graph, refused commands included.
-/
import Lanewise.Graph.Build

namespace Lanewise

inductive Command where
  | voidType
  | intType (bits : Nat)
  | floatType (precision : Precision)
  | pointerType
  | vectorType (element : TypeId) (lanes : UInt32)
  | arrayType (element : TypeId) (length : UInt32)
  | structType (fields : List TypeId)
  | constInt (type : TypeId) (value : Int64)
  | constFloat (type : TypeId) (value : Binary .double)
  | constAggregate (type : TypeId) (elements : List ValueId)
  | constSplat (type : TypeId) (element : ValueId)
  | constExpr (type : TypeId) (opcode : Opcode) (operands : List ValueId)
  | undef (type : TypeId)
  | argument (type : TypeId) (name : String)
  | instruction (type : TypeId) (opcode : Opcode) (operands : List ValueId)
  | callIntrinsic (type : TypeId) (intrinsic : Intrinsic) (arguments : List ValueId)
  | phi (type : TypeId)
  | setPhiIncoming (v : ValueId) (incoming : List ValueId)
  | setName (v : ValueId) (name : String)

inductive Reply where
  | type (t : TypeId)
  | value (v : ValueId)
  | done
  deriving DecidableEq, Repr

namespace Command

def run : Command → Build Reply
  | .voidType => .type <$> Build.voidType
  | .intType bits => .type <$> Build.intType bits
  | .floatType precision => .type <$> Build.floatType precision
  | .pointerType => .type <$> Build.pointerType
  | .vectorType element lanes => .type <$> Build.vectorType element lanes
  | .arrayType element length => .type <$> Build.arrayType element length
  | .structType fields => .type <$> Build.structType fields
  | .constInt type value => .value <$> Build.constInt type value
  | .constFloat type value => .value <$> Build.constFloat type value
  | .constAggregate type elements => .value <$> Build.constAggregate type elements
  | .constSplat type element => .value <$> Build.constSplat type element
  | .constExpr type opcode operands => .value <$> Build.constExpr type opcode operands
  | .undef type => .value <$> Build.undef type
  | .argument type name => .value <$> Build.argument type name
  | .instruction type opcode operands => .value <$> Build.instruction type opcode operands
  | .callIntrinsic type intrinsic arguments => .value <$> Build.callIntrinsic type intrinsic arguments
  | .phi type => .value <$> Build.phi type
  | .setPhiIncoming v incoming => (fun _ => .done) <$> Build.setPhiIncoming v incoming
  | .setName v name => (fun _ => .done) <$> Build.setName v name

/-- What a command answers on a graph, and the graph after it. -/
def perform (c : Command) (g : Graph) : Except BuildError Reply × Graph :=
  match c.run.run g with
  | .ok reply g => (.ok reply, g)
  | .error e g => (.error e, g)

end Command

namespace Graph

def after (g : Graph) (c : Command) : Graph :=
  (c.perform g).2

/-- The graphs that commands lead to from the empty graph. -/
inductive Reachable : Graph → Prop
  | empty : Reachable .empty
  | after {g : Graph} (c : Command) : Reachable g → Reachable (g.after c)

end Graph

end Lanewise
