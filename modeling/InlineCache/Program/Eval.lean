import InlineCache.Heap.Layout
import InlineCache.Program.Basic
import InlineCache.Program.Instruction
import InlineCache.Value.Basic
import InlineCache.Word.Memory

/-!
# What programs compute

Instructions read and define boxed values. A guard that does not hold makes the program fail, and
so does a result that is no `int32` where one is wanted. There are no registers, no stack and no
machine code here: this is the meaning that compiled code is measured against.
-/

namespace InlineCache

/-- The values that a running program has computed so far. -/
structure EvalState where
  /-- By operand: its value. -/
  operands : Nat → Value
  result : Option Value

/-- A computation that can fail. -/
abbrev Eval := StateT EvalState Option

namespace Eval

/-- What a program can look at: the heap, and the words of its fields. -/
structure Context where
  heap : Memory
  field : Nat → UInt64

def fail {α : Type} : Eval α :=
  fun _ => none

/-- Goes on only if a condition holds. -/
def require (ok : Bool) : Eval Unit :=
  if ok then return () else fail

def operand (x : OperandId) : Eval Value := do
  return (← get).operands x.index

/-- The pointer or integer under the tag of an operand. -/
def payload (x : OperandId) : Eval UInt64 := do
  return (← operand x).payload

def define (y : OperandId) (v : Value) : Eval Unit :=
  modify fun s => { s with operands := fun i => if i = y.index then v else s.operands i }

def setResult (v : Value) : Eval Unit :=
  modify fun s => { s with result := some v }

/-! ## The heap -/

namespace Context

/-- The pointer at an offset from an address. -/
def pointer (c : Context) (a : UInt64) (offset : Int32) : UInt64 :=
  c.heap.read64 (a + offset.toInt64.toUInt64)

/-- The number of 32 bits at an offset from an address. -/
def number (c : Context) (a : UInt64) (offset : Int32) : UInt32 :=
  c.heap.read32 (a + offset.toInt64.toUInt64)

def shape (c : Context) (object : UInt64) : UInt64 :=
  c.pointer object Layout.objectShape

def group (c : Context) (object : UInt64) : UInt64 :=
  c.pointer object Layout.objectGroup

def hasClass [ClassTable] (c : Context) (object : UInt64) (k : ClassKind) : Bool :=
  c.pointer (c.group object) Layout.groupClass == k.address

def proto (c : Context) (object : UInt64) : UInt64 :=
  c.pointer (c.group object) Layout.groupProto

/-- The value in the slot at a byte offset from the start of an object. -/
def fixedSlot (c : Context) (object offset : UInt64) : Value :=
  ⟨c.heap.read64 (object + offset)⟩

/-- The value in the slot at a byte offset from the start of the dynamic slots. -/
def dynamicSlot (c : Context) (object offset : UInt64) : Value :=
  ⟨c.heap.read64 (c.pointer object Layout.objectSlots + offset)⟩

def arrayLength (c : Context) (object : UInt64) : UInt32 :=
  c.number (c.pointer object Layout.objectElements) Layout.elementsLength

def stringLength (c : Context) (string : UInt64) : UInt32 :=
  c.number string Layout.stringLength

end Context

/-! ## Instructions -/

def guardType (x : OperandId) (t : ValueType) : Eval Unit := do
  require ((← operand x).type == t)

/-- Compares the pointer in an operand with a field. -/
def guardSpecific (c : Context) (x : OperandId) (index : Nat) : Eval Unit := do
  require ((← payload x) == c.field index)

/-- The integer in an operand. -/
def integer (x : OperandId) : Eval Int := do
  return (← operand x).toInt32.toInt

/-- Makes an integer the result, if it is an `int32`. -/
def setInt32Result (i : Int) : Eval Unit := do
  require (-0x80000000 ≤ i && i < 0x80000000)
  setResult (.ofInt32 (Int32.ofInt i))

/-- What one instruction does. -/
def instruction [ClassTable] (c : Context) : (op : Op) → Args op.schema → Eval Unit
  | .guardIsObject, (x, _) => guardType x .object
  | .guardIsString, (x, _) => guardType x .string
  | .guardIsSymbol, (x, _) => guardType x .symbol
  | .guardIsInt32, (x, _) => guardType x .int32
  | .guardIsNumber, (x, _) => do require (← operand x).isNumber
  | .guardIsArray, (x, _) => do
    guardType x .object
    require (c.hasClass (← payload x) .array)
  | .guardShape, (x, i, _) => do require (c.shape (← payload x) == c.field i)
  | .guardGroup, (x, i, _) => do require (c.group (← payload x) == c.field i)
  | .guardClass, (x, k, _) => do require (c.hasClass (← payload x) k)
  | .guardSpecificObject, (x, i, _) => guardSpecific c x i
  | .guardSpecificAtom, (x, i, _) => guardSpecific c x i
  | .guardSpecificSymbol, (x, i, _) => guardSpecific c x i
  | .guardSpecificId, (x, i, _) => guardSpecific c x i
  | .loadObject, (y, i, _) => define y (.boxed .object (c.field i))
  | .loadProto, (x, y, _) => do define y (.boxed .object (c.proto (← payload x)))
  | .loadFixedSlot, (x, i, y, _) => do define y (c.fixedSlot (← payload x) (c.field i))
  | .loadDynamicSlot, (x, i, y, _) => do define y (c.dynamicSlot (← payload x) (c.field i))
  | .loadInt32Constant, (y, n, _) => define y (.ofInt32 n)
  | .loadFixedSlotResult, (x, i, _) => do setResult (c.fixedSlot (← payload x) (c.field i))
  | .loadDynamicSlotResult, (x, i, _) => do setResult (c.dynamicSlot (← payload x) (c.field i))
  | .loadInt32ArrayLengthResult, (x, _) => do
    setInt32Result (c.arrayLength (← payload x)).toNat
  | .loadStringLengthResult, (x, _) => do
    setResult (.ofInt32 (c.stringLength (← payload x)).toInt32)
  | .loadUndefinedResult, _ => setResult .undefined
  | .loadBooleanResult, (b, _) => setResult (.ofBool b)
  | .loadValueResult, (i, _) => setResult ⟨c.field i⟩
  | .loadDoubleResult, (i, _) => setResult ⟨c.field i⟩
  | .loadOperandResult, (x, _) => do setResult (← operand x)
  | .int32AddResult, (x, y, _) => do setInt32Result ((← integer x) + (← integer y))
  | .int32SubResult, (x, y, _) => do setInt32Result ((← integer x) - (← integer y))
  | .returnFromIC, _ => return ()

/-- What instructions do one after the other. -/
def instructions [ClassTable] (c : Context) : List Instruction → Eval Unit
  | [] => return ()
  | i :: is => do
    instruction c i.op i.args
    instructions c is

/-- The result of instructions that start with these inputs, unless one of them fails. -/
def result? [ClassTable] (c : Context) (inputs : List Value) (is : List Instruction) :
    Option Value := do
  let start : EvalState := { operands := fun i => inputs.getD i .undefined, result := none }
  let ((), s) ← (instructions c is).run start
  s.result

end Eval

namespace Program

/-- The word of a field. -/
def fieldWord (p : Program) (index : Nat) : UInt64 :=
  (p.fields[index]?.map Field.word).getD 0

/-- The result of a program on a heap and inputs, unless it fails. -/
def eval? [ClassTable] (p : Program) (heap : Memory) (inputs : List Value) : Option Value :=
  match Instruction.decode p.code.toList with
  | .error _ => none
  | .ok is => Eval.result? { heap, field := p.fieldWord } inputs is

end Program
end InlineCache
