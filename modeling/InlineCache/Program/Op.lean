import InlineCache.Program.Field

/-!
# Operations

The instruction set of stub programs. A program checks its inputs with guards, loads values from
heap objects, writes one result and returns. `Op.schema` lists what an instruction carries after
its opcode, in the order of the bytes.
-/

namespace InlineCache

/-- What an instruction carries at one place. -/
inductive ArgKind where
  /-- An operand that the instruction reads. -/
  | use
  /-- An operand that the instruction defines. -/
  | define
  /-- A class, as one byte. -/
  | classKind
  /-- A truth value, as one byte. -/
  | bool
  /-- An integer of four bytes, the lowest first. -/
  | int32
  /-- The index of a field of the given type, as one byte. -/
  | field (t : FieldType)
deriving DecidableEq

namespace ArgKind

def text : ArgKind → String
  | .use => "Use"
  | .define => "Def"
  | .classKind => "Class"
  | .bool => "Bool"
  | .int32 => "Int32"
  | .field t => "Field(" ++ t.name ++ ")"

end ArgKind

/-- An operation of a stub program. -/
inductive Op where
  | guardIsObject
  | guardIsString
  | guardIsSymbol
  | guardIsInt32
  | guardIsNumber
  | guardIsArray
  | guardShape
  | guardGroup
  | guardClass
  | guardSpecificObject
  | guardSpecificAtom
  | guardSpecificSymbol
  | guardSpecificId
  | loadObject
  | loadProto
  | loadFixedSlot
  | loadDynamicSlot
  | loadInt32Constant
  | loadFixedSlotResult
  | loadDynamicSlotResult
  | loadInt32ArrayLengthResult
  | loadStringLengthResult
  | loadUndefinedResult
  | loadBooleanResult
  | loadValueResult
  | loadDoubleResult
  | loadOperandResult
  | int32AddResult
  | int32SubResult
  | returnFromIC
deriving DecidableEq

namespace Op

/-- Every operation, in the order of the opcodes. -/
def all : List Op :=
  [.guardIsObject, .guardIsString, .guardIsSymbol, .guardIsInt32, .guardIsNumber, .guardIsArray,
    .guardShape, .guardGroup, .guardClass, .guardSpecificObject, .guardSpecificAtom,
    .guardSpecificSymbol, .guardSpecificId, .loadObject, .loadProto, .loadFixedSlot,
    .loadDynamicSlot, .loadInt32Constant, .loadFixedSlotResult, .loadDynamicSlotResult,
    .loadInt32ArrayLengthResult, .loadStringLengthResult, .loadUndefinedResult,
    .loadBooleanResult, .loadValueResult, .loadDoubleResult, .loadOperandResult, .int32AddResult,
    .int32SubResult, .returnFromIC]

/-- The opcode: the place of the operation in `Op.all`. -/
def byte (op : Op) : UInt8 :=
  op.ctorIdx.toUInt8

def ofByte? (b : UInt8) : Option Op :=
  all[b.toNat]?

theorem ofByte?_byte (op : Op) : ofByte? op.byte = some op := by
  cases op <;> rfl

def name : Op → String
  | .guardIsObject => "GuardIsObject"
  | .guardIsString => "GuardIsString"
  | .guardIsSymbol => "GuardIsSymbol"
  | .guardIsInt32 => "GuardIsInt32"
  | .guardIsNumber => "GuardIsNumber"
  | .guardIsArray => "GuardIsArray"
  | .guardShape => "GuardShape"
  | .guardGroup => "GuardGroup"
  | .guardClass => "GuardClass"
  | .guardSpecificObject => "GuardSpecificObject"
  | .guardSpecificAtom => "GuardSpecificAtom"
  | .guardSpecificSymbol => "GuardSpecificSymbol"
  | .guardSpecificId => "GuardSpecificId"
  | .loadObject => "LoadObject"
  | .loadProto => "LoadProto"
  | .loadFixedSlot => "LoadFixedSlot"
  | .loadDynamicSlot => "LoadDynamicSlot"
  | .loadInt32Constant => "LoadInt32Constant"
  | .loadFixedSlotResult => "LoadFixedSlotResult"
  | .loadDynamicSlotResult => "LoadDynamicSlotResult"
  | .loadInt32ArrayLengthResult => "LoadInt32ArrayLengthResult"
  | .loadStringLengthResult => "LoadStringLengthResult"
  | .loadUndefinedResult => "LoadUndefinedResult"
  | .loadBooleanResult => "LoadBooleanResult"
  | .loadValueResult => "LoadValueResult"
  | .loadDoubleResult => "LoadDoubleResult"
  | .loadOperandResult => "LoadOperandResult"
  | .int32AddResult => "Int32AddResult"
  | .int32SubResult => "Int32SubResult"
  | .returnFromIC => "ReturnFromIC"

def ofName? (s : String) : Option Op :=
  all.find? fun op => op.name == s

/-- What the instruction carries, in the order of the bytes. -/
def schema : Op → List ArgKind
  | .guardIsObject => [.use]
  | .guardIsString => [.use]
  | .guardIsSymbol => [.use]
  | .guardIsInt32 => [.use]
  | .guardIsNumber => [.use]
  | .guardIsArray => [.use]
  | .guardShape => [.use, .field .shape]
  | .guardGroup => [.use, .field .group]
  | .guardClass => [.use, .classKind]
  | .guardSpecificObject => [.use, .field .object]
  | .guardSpecificAtom => [.use, .field .string]
  | .guardSpecificSymbol => [.use, .field .symbol]
  | .guardSpecificId => [.use, .field .id]
  | .loadObject => [.define, .field .object]
  | .loadProto => [.use, .define]
  | .loadFixedSlot => [.use, .field .rawWord, .define]
  | .loadDynamicSlot => [.use, .field .rawWord, .define]
  | .loadInt32Constant => [.define, .int32]
  | .loadFixedSlotResult => [.use, .field .rawWord]
  | .loadDynamicSlotResult => [.use, .field .rawWord]
  | .loadInt32ArrayLengthResult => [.use]
  | .loadStringLengthResult => [.use]
  | .loadUndefinedResult => []
  | .loadBooleanResult => [.bool]
  | .loadValueResult => [.field .value]
  | .loadDoubleResult => [.field .rawInt64]
  | .loadOperandResult => [.use]
  | .int32AddResult => [.use, .use]
  | .int32SubResult => [.use, .use]
  | .returnFromIC => []

/-- What a caller has to supply: the schema without the operands that are defined. -/
def explicitArgs (op : Op) : List ArgKind :=
  op.schema.filter (· != .define)

/-- How many operands the instruction defines: none or one. -/
def numDefs (op : Op) : Nat :=
  op.schema.count .define

/-- Whether the instruction writes the result of the stub. -/
def isResult : Op → Bool
  | .loadFixedSlotResult | .loadDynamicSlotResult | .loadInt32ArrayLengthResult
  | .loadStringLengthResult | .loadUndefinedResult | .loadBooleanResult | .loadValueResult
  | .loadDoubleResult | .loadOperandResult | .int32AddResult | .int32SubResult => true
  | _ => false

end Op
end InlineCache
