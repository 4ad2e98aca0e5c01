import InlineCache.Program.Basic

/-!
# Building programs

One function for each operation, with the arguments that the operation takes. Guards that settle
the type of an operand return it, loads return the operand that they define.
-/

namespace InlineCache.Program

/-- Appends an instruction for its effect alone. -/
def append (op : Op) (args : List Arg) : Build Unit := do
  discard (emit op args)

/-! ## Guards -/

def guardIsObject (x : OperandId) : Build OperandId := do
  append .guardIsObject [.operand x]
  return x

def guardIsString (x : OperandId) : Build OperandId := do
  append .guardIsString [.operand x]
  return x

def guardIsSymbol (x : OperandId) : Build OperandId := do
  append .guardIsSymbol [.operand x]
  return x

def guardIsInt32 (x : OperandId) : Build OperandId := do
  append .guardIsInt32 [.operand x]
  return x

def guardIsNumber (x : OperandId) : Build Unit :=
  append .guardIsNumber [.operand x]

def guardIsArray (x : OperandId) : Build OperandId := do
  append .guardIsArray [.operand x]
  return x

def guardShape (x : OperandId) (shape : UInt64) : Build Unit :=
  append .guardShape [.operand x, .field ⟨.shape, shape⟩]

def guardGroup (x : OperandId) (group : UInt64) : Build Unit :=
  append .guardGroup [.operand x, .field ⟨.group, group⟩]

def guardClass (x : OperandId) (c : ClassKind) : Build Unit :=
  append .guardClass [.operand x, .classKind c]

def guardSpecificObject (x : OperandId) (object : UInt64) : Build Unit :=
  append .guardSpecificObject [.operand x, .field ⟨.object, object⟩]

def guardSpecificAtom (x : OperandId) (atom : UInt64) : Build Unit :=
  append .guardSpecificAtom [.operand x, .field ⟨.string, atom⟩]

def guardSpecificSymbol (x : OperandId) (symbol : UInt64) : Build Unit :=
  append .guardSpecificSymbol [.operand x, .field ⟨.symbol, symbol⟩]

def guardSpecificId (x : OperandId) (key : PropertyKey) : Build Unit :=
  append .guardSpecificId [.operand x, .field ⟨.id, key.bits⟩]

/-! ## Loads -/

def loadObject (object : UInt64) : Build (Option OperandId) :=
  emit .loadObject [.field ⟨.object, object⟩]

def loadProto (x : OperandId) : Build (Option OperandId) :=
  emit .loadProto [.operand x]

/-- The value `offset` bytes into the object. -/
def loadFixedSlot (x : OperandId) (offset : UInt32) : Build (Option OperandId) :=
  emit .loadFixedSlot [.operand x, .field ⟨.rawWord, offset.toUInt64⟩]

/-- The value `offset` bytes into the dynamic slots of the object. -/
def loadDynamicSlot (x : OperandId) (offset : UInt32) : Build (Option OperandId) :=
  emit .loadDynamicSlot [.operand x, .field ⟨.rawWord, offset.toUInt64⟩]

def loadInt32Constant (i : Int32) : Build (Option OperandId) :=
  emit .loadInt32Constant [.int32 i]

/-! ## Results -/

def loadFixedSlotResult (x : OperandId) (offset : UInt32) : Build Unit :=
  append .loadFixedSlotResult [.operand x, .field ⟨.rawWord, offset.toUInt64⟩]

def loadDynamicSlotResult (x : OperandId) (offset : UInt32) : Build Unit :=
  append .loadDynamicSlotResult [.operand x, .field ⟨.rawWord, offset.toUInt64⟩]

def loadInt32ArrayLengthResult (x : OperandId) : Build Unit :=
  append .loadInt32ArrayLengthResult [.operand x]

def loadStringLengthResult (x : OperandId) : Build Unit :=
  append .loadStringLengthResult [.operand x]

def loadUndefinedResult : Build Unit :=
  append .loadUndefinedResult []

def loadBooleanResult (b : Bool) : Build Unit :=
  append .loadBooleanResult [.bool b]

def loadValueResult (v : Value) : Build Unit :=
  append .loadValueResult [.field ⟨.value, v.bits⟩]

/-- The double with this bit pattern; every NaN becomes the canonical one. -/
def loadDoubleResult (bits : UInt64) : Build Unit :=
  append .loadDoubleResult [.field ⟨.rawInt64, (Value.ofDoubleBits bits).bits⟩]

def loadOperandResult (x : OperandId) : Build Unit :=
  append .loadOperandResult [.operand x]

def int32AddResult (x y : OperandId) : Build Unit :=
  append .int32AddResult [.operand x, .operand y]

def int32SubResult (x y : OperandId) : Build Unit :=
  append .int32SubResult [.operand x, .operand y]

def returnFromIC : Build Unit :=
  append .returnFromIC []

end InlineCache.Program
