/-
Building a graph. Every step checks its arguments against the graph so far and either extends the
graph or is refused with a cause; the state that a refusal leaves behind is part of its result.
-/
import Lanewise.Graph.Basic
import Lanewise.Graph.Error
import Lanewise.Number.Word

namespace Lanewise

abbrev Build := EStateM BuildError Graph

namespace Build

/-! ## Checks -/

def typeName (t : TypeId) : Build String := do
  return (← get).typeName t

def checkType (t : TypeId) : Build TypeForm := do
  match (← get).types.form? t with
  | some form => return form
  | none => throw (.noSuchType t)

def checkValue (v : ValueId) : Build Node := do
  let g ← get
  match g.node? v with
  | some node => return node
  | none => throw (.noSuchValue v g.size)

def checkOperands : List ValueId → Build Unit
  | [] => return
  | v :: vs => do
    discard (checkValue v)
    checkOperands vs

/-- The first field that is no type, or has no size, is reported. -/
def checkFields : List TypeId → Build Unit
  | [] => return
  | field :: fields => do
    if (← checkType field) = .void then throw (.unexpectedType .structField "void")
    checkFields fields

/-- The first value that is not of the given type is reported. -/
def checkIncoming (type : TypeId) : List ValueId → Build Unit
  | [] => return
  | v :: vs => do
    let node ← checkValue v
    if node.type ≠ type then throw (.unexpectedType .incomingValue (← typeName node.type))
    checkIncoming type vs

/-- The first element, from position `i` on, that is not a constant of its element type is
reported. -/
def checkElements (form : TypeForm) (i : Nat) : List ValueId → Build Unit
  | [] => return
  | v :: vs => do
    let node ← checkValue v
    if !node.content.kind.isConstant then throw (.elementNotConstant i)
    if form.element? i ≠ some node.type then
      let found ← typeName node.type
      let expected ← (form.element? i).elim (return "") typeName
      throw (.elementType i found expected)
    checkElements form (i + 1) vs

/-! ## Types -/

/-- The type of a form, which is a new one only if no type has the form yet. -/
def intern (form : TypeForm) : Build TypeId :=
  modifyGet fun g =>
    let (t, types) := g.types.intern form
    (t, { g with types })

def voidType : Build TypeId :=
  intern .void

/-- Integers have 1 to 64 bits. -/
def intType (bits : Nat) : Build TypeId := do
  if bits < 1 ∨ 64 < bits then throw (.unsupportedWidth bits)
  intern (.int bits)

def floatType (precision : Precision) : Build TypeId :=
  intern (.float precision)

def pointerType : Build TypeId :=
  intern .pointer

/-- A vector has at least one lane, and its lanes are integers, floats or pointers. -/
def vectorType (element : TypeId) (lanes : UInt32) : Build TypeId := do
  let form ← checkType element
  if !form.isVectorElement then throw (.unexpectedType .vectorElement (← typeName element))
  if lanes = 0 then throw .noLanes
  intern (.vector element lanes)

/-- An array may be empty, but its elements have a size. -/
def arrayType (element : TypeId) (length : UInt32) : Build TypeId := do
  if (← checkType element) = .void then throw (.unexpectedType .arrayElement "void")
  intern (.array element length)

/-- A struct may have no fields, but its fields have a size. -/
def structType (fields : List TypeId) : Build TypeId := do
  checkFields fields
  intern (.struct fields)

/-! ## Values -/

def push (type : TypeId) (content : Content) : Build ValueId :=
  modifyGet fun g => (⟨g.size⟩, { g with nodes := g.nodes.push { type, content } })

/-- Names a value. A name that is given again finds the newer value; the name that the value had
before still finds it. -/
def setName (v : ValueId) (name : String) : Build Unit := do
  discard (checkValue v)
  modify fun g => { g with
    nodes := g.nodes.modify v.index fun node => { node with name }
    names := (name, v) :: g.names }

/-- An integer literal keeps the low bits of `value` that its type holds, sign-extended. -/
def constInt (type : TypeId) (value : Int64) : Build ValueId := do
  match ← checkType type with
  | .int bits => push type (.int (signExtend bits value))
  | _ => throw (.unexpectedType .integer (← typeName type))

/-- A floating point literal is rounded to its type. -/
def constFloat (type : TypeId) (value : Binary .double) : Build ValueId := do
  match ← checkType type with
  | .float precision => push type (.float (.ofDouble precision value))
  | _ => throw (.unexpectedType .floatingPoint (← typeName type))

/-- A vector, array or struct constant from as many constants of the element types as the type has
elements. -/
def constAggregate (type : TypeId) (elements : List ValueId) : Build ValueId := do
  let form ← checkType type
  match form.elementCount? with
  | none => throw (.unexpectedType .aggregate (← typeName type))
  | some count =>
    if count ≠ elements.length then throw (.elementCount (← typeName type) count elements.length)
    checkElements form 0 elements
    push type (.aggregate elements.toArray)

def constSplat (type : TypeId) (element : ValueId) : Build ValueId := do
  match ← checkType type with
  | .vector _ lanes => constAggregate type (List.replicate lanes.toNat element)
  | _ => throw (.unexpectedType .vector (← typeName type))

/-- A constant expression that stays unfolded. -/
def constExpr (type : TypeId) (opcode : Opcode) (operands : List ValueId) : Build ValueId := do
  discard (checkType type)
  checkOperands operands
  push type (.expr opcode operands.toArray)

/-- Each call makes a new value. -/
def undef (type : TypeId) : Build ValueId := do
  discard (checkType type)
  push type .undef

def argument (type : TypeId) (name : String) : Build ValueId := do
  discard (checkType type)
  let v ← push type .argument
  setName v name
  return v

def instruction (type : TypeId) (opcode : Opcode) (operands : List ValueId) : Build ValueId := do
  discard (checkType type)
  checkOperands operands
  push type (.op opcode operands.toArray)

/-- The arguments are not compared with what the intrinsic takes. -/
def callIntrinsic (type : TypeId) (intrinsic : Intrinsic) (arguments : List ValueId) : Build ValueId := do
  discard (checkType type)
  checkOperands arguments
  push type (.call intrinsic arguments.toArray)

/-- A phi that has no incoming values yet. -/
def phi (type : TypeId) : Build ValueId := do
  discard (checkType type)
  push type (.op .phi #[])

/-- Replaces the incoming values of a phi by values of its type. Anything whose opcode is `phi` counts
as one. -/
def setPhiIncoming (v : ValueId) (incoming : List ValueId) : Build Unit := do
  let node ← checkValue v
  if node.content.opcode? ≠ some .phi then throw (.notPhi v)
  checkIncoming node.type incoming
  modify fun g => { g with
    nodes := g.nodes.modify v.index fun node =>
      { node with content := node.content.withOperands incoming.toArray } }

end Build

end Lanewise
