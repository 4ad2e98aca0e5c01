import InlineCache.Codegen.Allocator
import InlineCache.Program.Instruction

/-!
# Code for one instruction

What each operation compiles to. Guards branch to a bailout when they fail; a guard whose outcome
is known from the type of its operand is dropped or becomes a plain jump. Results end up boxed in
the output register. Field `i` of the program is read from the stub at the displacement that `at`
gives for it.
-/

namespace InlineCache.Gen

open X64

/-! ## Guards -/

/-- A guard that cannot succeed. -/
def alwaysFail : Gen Unit := do
  let l ← bailout
  code [.jmp l]

def guardType (x : OperandId) (t : ValueType) : Gen Unit := do
  match (← place x.index).knownType? with
  | some known => if known ≠ t then alwaysFail
  | none =>
    let r ← useValue x.index
    let l ← bailout
    code? (Snippet.branchType .notEqual r t l)

def guardNumber (x : OperandId) : Gen Unit := do
  match (← place x.index).knownType? with
  | some known => if known ≠ .int32 ∧ known ≠ .double then alwaysFail
  | none =>
    let r ← useValue x.index
    let l ← bailout
    code? (Snippet.branchNumber .notEqual r l)

/-- Compares the class of the group in `scratch` with `c`, and gives the register back. -/
def compareClass [ClassTable] (scratch : Register) (c : ClassKind) (l : Label) : Gen Unit := do
  code [.load scratch scratch Layout.groupClass]
  code (Snippet.branchWord .notEqual scratch c.address l)
  release scratch

/-- The operand stays boxed if it is, so that a guard for its type before this one can share the
bailout. -/
def guardArray [ClassTable] (x : OperandId) : Gen Unit := do
  match (← place x.index).knownType? with
  | some .object =>
    let object ← usePayload x.index .object
    let scratch ← allocate
    let l ← bailout
    code [.load scratch object Layout.objectGroup]
    compareClass scratch .array l
  | some _ => alwaysFail
  | none =>
    let r ← useValue x.index
    let scratch ← allocate
    let l ← bailout
    code? (Snippet.branchType .notEqual r .object l)
    code? (Snippet.unbox r scratch .object)
    code [.load scratch scratch Layout.objectGroup]
    compareClass scratch .array l

/-- Compares a pointer in the object header with a field. -/
def guardHeader (x : OperandId) (header field : Int32) : Gen Unit := do
  let object ← usePayload x.index .object
  let scratch ← allocate
  let l ← bailout
  code [.load scratch stubRegister field]
  code (Snippet.branchMemory .notEqual object header scratch l)
  release scratch

def guardClass [ClassTable] (x : OperandId) (c : ClassKind) : Gen Unit := do
  let object ← usePayload x.index .object
  let scratch ← allocate
  let l ← bailout
  code [.load scratch object Layout.objectGroup]
  compareClass scratch c l

/-- Compares a pointer with a field. Atoms and symbols are unique, so this decides equality. -/
def guardSpecific (x : OperandId) (t : ValueType) (field : Int32) : Gen Unit := do
  let r ← usePayload x.index t
  let scratch ← allocate
  let l ← bailout
  code [.load scratch stubRegister field]
  code (Snippet.branchRegister .notEqual r scratch l)
  release scratch

/-! ## Loads -/

def loadObject (x : OperandId) (field : Int32) : Gen Unit := do
  let r ← definePayload x.index .object
  code [.load r stubRegister field]

def loadProto (x y : OperandId) : Gen Unit := do
  let object ← usePayload x.index .object
  let r ← definePayload y.index .object
  code [.load r object Layout.objectGroup, .load r r Layout.groupProto]

/-- Reads a slot at the byte offset in a field. -/
def readSlot (dest object scratch : Register) (field : Int32) (dynamic : Bool) : Gen Unit := do
  code [.load scratch stubRegister field]
  if dynamic then
    code [.load dest object Layout.objectSlots, .loadIndexed dest dest scratch]
  else code [.loadIndexed dest object scratch]

def loadSlot (x y : OperandId) (field : Int32) (dynamic : Bool) : Gen Unit := do
  let object ← usePayload x.index .object
  let scratch ← allocate
  let dest ← defineValue y.index
  readSlot dest object scratch field dynamic
  release scratch

/-! ## Results -/

def slotResult (x : OperandId) (field : Int32) (dynamic : Bool) : Gen Unit := do
  allocateFixed outputRegister
  let object ← usePayload x.index .object
  let scratch ← allocate
  readSlot outputRegister object scratch field dynamic
  release scratch

/-- Boxes the integer in the output register. -/
def boxInt32Output : Gen Unit :=
  code? (Snippet.tag .int32 outputRegister outputRegister)

/-- Lengths that are no `int32` fail. -/
def arrayLengthResult (x : OperandId) : Gen Unit := do
  allocateFixed outputRegister
  let object ← usePayload x.index .object
  let scratch ← allocate
  let l ← bailout
  code [.load scratch object Layout.objectElements,
    .load32 outputRegister scratch Layout.elementsLength]
  code (Snippet.branchNegative32 outputRegister l)
  boxInt32Output
  release scratch

def stringLengthResult (x : OperandId) : Gen Unit := do
  allocateFixed outputRegister
  let string ← usePayload x.index .string
  code [.load32 outputRegister string Layout.stringLength]
  boxInt32Output

def constantResult (v : Value) : Gen Unit := do
  allocateFixed outputRegister
  code [.movImm outputRegister v.bits]

def fieldResult (field : Int32) : Gen Unit := do
  allocateFixed outputRegister
  code [.load outputRegister stubRegister field]

def operandResult (x : OperandId) : Gen Unit := do
  allocateFixed outputRegister
  let r ← useValue x.index
  code (Snippet.move outputRegister r)

/-- Adds or subtracts; overflow fails. -/
def arithResult (x y : OperandId) (compute : Register → Register → Label → Snippet.Code) :
    Gen Unit := do
  allocateFixed outputRegister
  let a ← usePayload x.index .int32
  let b ← usePayload y.index .int32
  let l ← bailout
  code (Snippet.move outputRegister a)
  code (compute outputRegister b l)
  boxInt32Output

def return_ : Gen Unit := do
  discardStack
  code [.ret]

/-! ## All operations -/

/-- The code of an instruction, with the displacement of each field. -/
def instruction [ClassTable] (field : Nat → Int32) : (op : Op) → Args op.schema → Gen Unit
  | .guardIsObject, (x, _) => guardType x .object
  | .guardIsString, (x, _) => guardType x .string
  | .guardIsSymbol, (x, _) => guardType x .symbol
  | .guardIsInt32, (x, _) => guardType x .int32
  | .guardIsNumber, (x, _) => guardNumber x
  | .guardIsArray, (x, _) => guardArray x
  | .guardShape, (x, i, _) => guardHeader x Layout.objectShape (field i)
  | .guardGroup, (x, i, _) => guardHeader x Layout.objectGroup (field i)
  | .guardClass, (x, c, _) => guardClass x c
  | .guardSpecificObject, (x, i, _) => guardSpecific x .object (field i)
  | .guardSpecificAtom, (x, i, _) => guardSpecific x .string (field i)
  | .guardSpecificSymbol, (x, i, _) => guardSpecific x .symbol (field i)
  | .guardSpecificId, (x, i, _) => guardSpecific x .string (field i)
  | .loadObject, (y, i, _) => loadObject y (field i)
  | .loadProto, (x, y, _) => loadProto x y
  | .loadFixedSlot, (x, i, y, _) => loadSlot x y (field i) false
  | .loadDynamicSlot, (x, i, y, _) => loadSlot x y (field i) true
  | .loadInt32Constant, (y, n, _) => setPlace y.index (.constant (.ofInt32 n))
  | .loadFixedSlotResult, (x, i, _) => slotResult x (field i) false
  | .loadDynamicSlotResult, (x, i, _) => slotResult x (field i) true
  | .loadInt32ArrayLengthResult, (x, _) => arrayLengthResult x
  | .loadStringLengthResult, (x, _) => stringLengthResult x
  | .loadUndefinedResult, _ => constantResult .undefined
  | .loadBooleanResult, (b, _) => constantResult (.ofBool b)
  | .loadValueResult, (i, _) => fieldResult (field i)
  | .loadDoubleResult, (i, _) => fieldResult (field i)
  | .loadOperandResult, (x, _) => operandResult x
  | .int32AddResult, (x, y, _) => arithResult x y Snippet.addOrBranch
  | .int32SubResult, (x, y, _) => arithResult x y Snippet.subOrBranch
  | .returnFromIC, _ => return_

end InlineCache.Gen
