import InlineCache.Proofs.Codegen.Results
import InlineCache.Proofs.Program.Encoding

/-!
# The code of any instruction

All operations together: whatever the instruction, compiling it succeeds unless the stack is too
deep, and its code does what the instruction does to the virtual registers (`instruction_ensures`).
The return is told apart, because nothing comes after it: it drops the stack and leaves
(`return_eq`, `exec_returnCode`).
-/

namespace InlineCache

open X64

/-- Operands that are read are defined and alive, and an operand that is defined is the next one. -/
def Allocator.Usable (a : Allocator) (d : Nat) : (k : ArgKind) → k.Decoded → Prop
  | .use, x => x.index < d ∧ a.isDead x.index = false
  | .define, y => y.index = d ∧ d < a.places.size
  | _, _ => True

namespace Gen

variable {s : Codegen} {k d : Nat} {done : Bool}

/-- Instructions that write no result. -/
theorem plain_ensures [ClassTable] (hinv : s.alloc.Inv k d (initiallyTaken done) done)
    (hlab : s.Labelled) (field : Nat → Int32) (op : Op) (args : Args op.schema)
    (hargs : Args.All (s.alloc.Usable d) op.schema args) (hresult : op.isResult = false)
    (hreturn : op ≠ .returnFromIC) :
    Ensures (Overflow k) (instruction field op args) s
      (Emitted (fun env => Virtual.instruction env field op args) k (d + op.numDefs) done done
        s) := by
  cases op with
  | guardIsObject => exact guardType_ensures hinv hlab hargs.1.1 hargs.1.2 .object
  | guardIsString => exact guardType_ensures hinv hlab hargs.1.1 hargs.1.2 .string
  | guardIsSymbol => exact guardType_ensures hinv hlab hargs.1.1 hargs.1.2 .symbol
  | guardIsInt32 => exact guardType_ensures hinv hlab hargs.1.1 hargs.1.2 .int32
  | guardIsNumber => exact guardNumber_ensures hinv hlab hargs.1.1 hargs.1.2
  | guardIsArray => exact guardArray_ensures hinv hlab hargs.1.1 hargs.1.2
  | guardShape => exact guardHeader_ensures hinv hlab hargs.1.1 hargs.1.2 _ _
  | guardGroup => exact guardHeader_ensures hinv hlab hargs.1.1 hargs.1.2 _ _
  | guardClass => exact guardClass_ensures hinv hlab hargs.1.1 hargs.1.2 _
  | guardSpecificObject => exact guardSpecific_ensures hinv hlab hargs.1.1 hargs.1.2 rfl _
  | guardSpecificAtom => exact guardSpecific_ensures hinv hlab hargs.1.1 hargs.1.2 rfl _
  | guardSpecificSymbol => exact guardSpecific_ensures hinv hlab hargs.1.1 hargs.1.2 rfl _
  | guardSpecificId => exact guardSpecific_ensures hinv hlab hargs.1.1 hargs.1.2 rfl _
  | loadObject => exact loadObject_ensures hinv hlab hargs.1.1 hargs.1.2 _
  | loadProto =>
      exact loadProto_ensures hinv hlab hargs.2.1.1 hargs.2.1.2 hargs.1.1 hargs.1.2
  | loadFixedSlot =>
      exact loadSlot_ensures hinv hlab hargs.2.2.1.1 hargs.2.2.1.2 hargs.1.1 hargs.1.2 _ _
  | loadDynamicSlot =>
      exact loadSlot_ensures hinv hlab hargs.2.2.1.1 hargs.2.2.1.2 hargs.1.1 hargs.1.2 _ _
  | loadInt32Constant => exact loadConstant_ensures hinv hlab hargs.1.1 hargs.1.2 _
  | returnFromIC => exact absurd rfl hreturn
  | _ => cases hresult

/-- Instructions that write the result. -/
theorem result_ensures [ClassTable] (hinv : s.alloc.Inv k d (initiallyTaken false) false)
    (hlab : s.Labelled) (field : Nat → Int32) (op : Op) (args : Args op.schema)
    (hargs : Args.All (s.alloc.Usable d) op.schema args) (hresult : op.isResult = true) :
    Ensures (Overflow k) (instruction field op args) s
      (Emitted (fun env => Virtual.instruction env field op args) k (d + op.numDefs) false true
        s) := by
  cases op with
  | loadFixedSlotResult => exact slotResult_ensures hinv hlab hargs.1.1 hargs.1.2 _ _
  | loadDynamicSlotResult => exact slotResult_ensures hinv hlab hargs.1.1 hargs.1.2 _ _
  | loadInt32ArrayLengthResult => exact arrayLengthResult_ensures hinv hlab hargs.1.1 hargs.1.2
  | loadStringLengthResult => exact stringLengthResult_ensures hinv hlab hargs.1.1 hargs.1.2
  | loadUndefinedResult => exact constantResult_ensures hinv hlab _
  | loadBooleanResult => exact constantResult_ensures hinv hlab _
  | loadValueResult => exact fieldResult_ensures hinv hlab _
  | loadDoubleResult => exact fieldResult_ensures hinv hlab _
  | loadOperandResult => exact operandResult_ensures hinv hlab hargs.1.1 hargs.1.2
  | int32AddResult =>
      exact arithResult_ensures hinv hlab hargs.1.1 hargs.1.2 Snippet.implements_add
        hargs.2.1.1 hargs.2.1.2
  | int32SubResult =>
      exact arithResult_ensures hinv hlab hargs.1.1 hargs.1.2 Snippet.implements_sub
        hargs.2.1.1 hargs.2.1.2
  | _ => cases hresult

/-- Compiling an instruction succeeds unless the stack is too deep, and the code does what the
instruction does. -/
theorem instruction_ensures [ClassTable] (hinv : s.alloc.Inv k d (initiallyTaken done) done)
    (hlab : s.Labelled) (field : Nat → Int32) (op : Op) (args : Args op.schema)
    (hargs : Args.All (s.alloc.Usable d) op.schema args)
    (hdone : (op.isResult && done) = false) (hreturn : op ≠ .returnFromIC) :
    Ensures (Overflow k) (instruction field op args) s
      (Emitted (fun env => Virtual.instruction env field op args) k (d + op.numDefs) done
        (done || op.isResult) s) := by
  cases hresult : op.isResult with
  | false =>
      rw [Bool.or_false]
      exact plain_ensures hinv hlab field op args hargs hresult hreturn
  | true =>
      rw [hresult] at hdone
      cases done with
      | false => exact result_ensures hinv hlab field op args hargs hresult
      | true => cases hdone

end Gen
end InlineCache
