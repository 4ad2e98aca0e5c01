import InlineCache.Codegen.Allocator
import InlineCache.Program.Instruction
import InlineCache.Proofs.Ensures
import InlineCache.Proofs.Value.Boxing
import InlineCache.Proofs.Word.Region
import InlineCache.X64.Machine

/-!
# Stubs on virtual registers

What a compiled stub computes, told without registers and without a stack: every operand has a
virtual register of its own. A virtual register remembers the form its operand is in, boxed or as
a bare payload of some type or as a constant, because compiled code decides some guards by the form
alone, unboxes operands without a test and boxes them again to hand them on. For a program that
uses operands without guarding them this changes their bits, so the forms are part of what the
stub computes.

Where operands are placed, how many registers there are and which bailouts are shared do not occur
here. That the machine code of a stub does what this file says, whatever the engine and the
options, is the main fact about code generation.

Memory is read as it was when the stub was entered. A read that touches the part of the stack that
the stub uses for itself stops the run as `wild`.
-/

namespace InlineCache

open X64

/-- Where a stub runs. -/
structure Env where
  /-- The memory when the stub is entered. -/
  mem : Memory
  /-- The address of the stub. -/
  stub : UInt64
  /-- The stack pointer when the stub is entered. -/
  sp : UInt64
  /-- The bytes of stack that the stub may use. -/
  room : Nat

/-- The part of the stack that the stub may use. -/
def Env.area (env : Env) : UInt64 → Bool :=
  Memory.below env.sp env.room

/-- The next stub, as the header of the stub says. -/
def Env.nextStub (env : Env) : UInt64 :=
  env.mem.read64 (env.stub + Layout.stubNext.toInt64.toUInt64)

/-- The code of the next stub, as its header says. -/
def Env.nextCode (env : Env) : UInt64 :=
  env.mem.read64 (env.nextStub + Layout.stubCode.toInt64.toUInt64)

/-- The headers can be read. -/
def Env.linked (env : Env) : Bool :=
  (Span.mk (env.stub + Layout.stubNext.toInt64.toUInt64) 8).avoids env.area &&
    (Span.mk (env.nextStub + Layout.stubCode.toInt64.toUInt64) 8).avoids env.area

/-- What a virtual register contains. -/
inductive Content where
  | boxed (w : UInt64)
  | payload (t : ValueType) (w : UInt64)
  | constant (v : Value)
deriving DecidableEq

namespace Content

/-- The type that is known without looking at the bits. -/
def knownType? : Content → Option ValueType
  | .boxed _ => none
  | .payload t _ => some t
  | .constant v => some v.type

/-- The operand as a boxed word. -/
def word : Content → UInt64
  | .boxed w => w
  | .payload t w => t.box w
  | .constant v => v.bits

/-- The operand as a payload of type `t`. -/
def payloadAs (t : ValueType) : Content → UInt64
  | .boxed w => t.unbox w
  | .payload known w => if known = t then w else t.unbox (known.box w)
  | .constant v => Gen.constantPayload v t

end Content

/-- A constant is unboxed like any other word. -/
theorem Gen.constantPayload_eq {t : ValueType} (ht : t.isBoxable = true) (v : Value) :
    constantPayload v t = t.unbox v.bits := by
  cases hptr : t.isPointer with
  | true =>
      rw [ValueType.unbox_of_isPointer hptr]
      cases t <;> first | rfl | cases hptr
  | false =>
      rw [ValueType.unbox_of_not_isPointer hptr]
      obtain rfl | rfl := ValueType.eq_of_not_isPointer ht hptr <;> rfl

/-- Why a run stops before its end. -/
inductive Stop where
  /-- A guard does not hold, or a result is no `int32`. -/
  | failed
  /-- A read touches the part of the stack that the stub uses. -/
  | wild
deriving DecidableEq

/-- The virtual registers, and the register of the result. -/
structure VirtualState where
  contents : Nat → Content
  result : UInt64

/-- A computation on virtual registers. What was done before a stop stays. -/
abbrev Virtual := EStateM Stop VirtualState

/-- A function with one value replaced. -/
def setAt {α : Type} (f : Nat → α) (i : Nat) (a : α) : Nat → α :=
  fun j => if j = i then a else f j

@[simp]
theorem setAt_self {α : Type} (f : Nat → α) (i : Nat) (a : α) : setAt f i a i = a :=
  if_pos rfl

theorem setAt_of_ne {α : Type} (f : Nat → α) {i j : Nat} (a : α) (h : j ≠ i) :
    setAt f i a j = f j :=
  if_neg h

theorem setAt_eq_self {α : Type} (f : Nat → α) (i : Nat) : setAt f i (f i) = f := by
  funext j
  by_cases h : j = i
  · rw [h, setAt_self]
  · rw [setAt_of_ne _ _ h]

@[simp]
theorem setAt_setAt {α : Type} (f : Nat → α) (i : Nat) (a b : α) :
    setAt (setAt f i a) i b = setAt f i b := by
  funext j
  by_cases h : j = i
  · rw [h, setAt_self, setAt_self]
  · rw [setAt_of_ne _ _ h, setAt_of_ne _ _ h, setAt_of_ne _ _ h]

def VirtualState.set (s : VirtualState) (x : OperandId) (c : Content) : VirtualState :=
  { s with contents := setAt s.contents x.index c }

@[simp]
theorem VirtualState.contents_set_self (s : VirtualState) (x : OperandId) (c : Content) :
    (s.set x c).contents x.index = c :=
  setAt_self _ _ _

theorem VirtualState.contents_set_of_ne (s : VirtualState) {x : OperandId} (c : Content) {i : Nat}
    (h : i ≠ x.index) : (s.set x c).contents i = s.contents i :=
  setAt_of_ne _ _ h

namespace Virtual

def stop {α : Type} (why : Stop) : Virtual α :=
  throw why

/-- Goes on only if a condition holds. -/
def require (ok : Bool) : Virtual Unit :=
  if ok then return () else stop .failed

def content (x : OperandId) : Virtual Content := do
  return (← get).contents x.index

theorem content_eq (x : OperandId) (s : VirtualState) :
    content x s = .ok (s.contents x.index) s := rfl

def define (x : OperandId) (c : Content) : Virtual Unit :=
  modify (·.set x c)

def setResult (w : UInt64) : Virtual Unit :=
  modify fun s => { s with result := w }

/-- The operand as a boxed word; it stays boxed. -/
def useValue (x : OperandId) : Virtual UInt64 := do
  let w := (← content x).word
  define x (.boxed w)
  return w

/-- The operand as a payload of type `t`; it stays a payload of that type. -/
def usePayload (x : OperandId) (t : ValueType) : Virtual UInt64 := do
  let w := (← content x).payloadAs t
  define x (.payload t w)
  return w

/-! ## Memory -/

def read64 (env : Env) (a : UInt64) : Virtual UInt64 :=
  if (Span.mk a 8).avoids env.area then return env.mem.read64 a else stop .wild

def read32 (env : Env) (a : UInt64) : Virtual UInt32 :=
  if (Span.mk a 4).avoids env.area then return env.mem.read32 a else stop .wild

theorem read64_of_avoids {env : Env} {a : UInt64} (h : (Span.mk a 8).avoids env.area = true)
    (s : VirtualState) : read64 env a s = .ok (env.mem.read64 a) s := by
  rw [read64, if_pos h]
  rfl

theorem read64_of_not_avoids {env : Env} {a : UInt64}
    (h : ¬ (Span.mk a 8).avoids env.area = true) (s : VirtualState) :
    read64 env a s = .error .wild s := by
  rw [read64, if_neg h]
  rfl

/-- The pointer at a displacement from an address. -/
def pointer (env : Env) (a : UInt64) (disp : Int32) : Virtual UInt64 :=
  read64 env (a + disp.toInt64.toUInt64)

/-- The number of 32 bits at a displacement from an address. -/
def number (env : Env) (a : UInt64) (disp : Int32) : Virtual UInt32 :=
  read32 env (a + disp.toInt64.toUInt64)

/-- The field at a displacement from the stub. -/
def field (env : Env) (disp : Int32) : Virtual UInt64 :=
  pointer env env.stub disp

/-! ## Guards -/

def guardType (x : OperandId) (t : ValueType) : Virtual Unit := do
  match (← content x).knownType? with
  | some known => require (known == t)
  | none => do
    let w ← useValue x
    require (Value.hasTag ⟨w⟩ t)

def guardNumber (x : OperandId) : Virtual Unit := do
  match (← content x).knownType? with
  | some known => require (known == .int32 || known == .double)
  | none => do
    let w ← useValue x
    require (Value.isNumber ⟨w⟩)

/-- The class of an object has to be `c`. -/
def requireClass [ClassTable] (env : Env) (object : UInt64) (c : ClassKind) : Virtual Unit := do
  let group ← pointer env object Layout.objectGroup
  let clasp ← pointer env group Layout.groupClass
  require (clasp == c.address)

def guardArray [ClassTable] (env : Env) (x : OperandId) : Virtual Unit := do
  match (← content x).knownType? with
  | some .object => do
    let object ← usePayload x .object
    requireClass env object .array
  | some _ => stop .failed
  | none => do
    let w ← useValue x
    require (Value.hasTag ⟨w⟩ .object)
    requireClass env (ValueType.object.unbox w) .array

def guardHeader (env : Env) (x : OperandId) (header disp : Int32) : Virtual Unit := do
  let object ← usePayload x .object
  let wanted ← field env disp
  let got ← pointer env object header
  require (got == wanted)

def guardClass [ClassTable] (env : Env) (x : OperandId) (c : ClassKind) : Virtual Unit := do
  let object ← usePayload x .object
  requireClass env object c

def guardSpecific (env : Env) (x : OperandId) (t : ValueType) (disp : Int32) :
    Virtual Unit := do
  let got ← usePayload x t
  let wanted ← field env disp
  require (got == wanted)

/-! ## Loads -/

def loadObject (env : Env) (y : OperandId) (disp : Int32) : Virtual Unit := do
  define y (.payload .object (← field env disp))

def loadProto (env : Env) (x y : OperandId) : Virtual Unit := do
  let object ← usePayload x .object
  let group ← pointer env object Layout.objectGroup
  define y (.payload .object (← pointer env group Layout.groupProto))

/-- The slot of an object at the byte offset in a field. -/
def readSlot (env : Env) (object : UInt64) (disp : Int32) (dynamic : Bool) : Virtual UInt64 := do
  let offset ← field env disp
  if dynamic then
    let slots ← pointer env object Layout.objectSlots
    read64 env (slots + offset)
  else read64 env (object + offset)

def slot (env : Env) (x : OperandId) (disp : Int32) (dynamic : Bool) : Virtual UInt64 := do
  let object ← usePayload x .object
  readSlot env object disp dynamic

def loadSlot (env : Env) (x y : OperandId) (disp : Int32) (dynamic : Bool) : Virtual Unit := do
  define y (.boxed (← slot env x disp dynamic))

/-! ## Results -/

def slotResult (env : Env) (x : OperandId) (disp : Int32) (dynamic : Bool) : Virtual Unit := do
  setResult (← slot env x disp dynamic)

def setInt32Result (i : UInt32) : Virtual Unit :=
  setResult (ValueType.int32.box i.toUInt64)

def arrayLengthResult (env : Env) (x : OperandId) : Virtual Unit := do
  let object ← usePayload x .object
  let elements ← pointer env object Layout.objectElements
  let length ← number env elements Layout.elementsLength
  require (!decide (length.toInt32 < 0))
  setInt32Result length

def stringLengthResult (env : Env) (x : OperandId) : Virtual Unit := do
  let string ← usePayload x .string
  setInt32Result (← number env string Layout.stringLength)

def operandResult (x : OperandId) : Virtual Unit := do
  setResult (← useValue x)

/-- What an addition or a subtraction of low halves comes to, and whether it overflows. -/
structure Arith where
  value : UInt32 → UInt32 → UInt32
  overflows : UInt32 → UInt32 → Bool

def Arith.add : Arith where
  value := (· + ·)
  overflows a b := (Flags.add32 a b).overflow

def Arith.sub : Arith where
  value := (· - ·)
  overflows a b := (Flags.compare32 a b).overflow

def arithResult (x y : OperandId) (op : Arith) : Virtual Unit := do
  let a ← usePayload x .int32
  let b ← usePayload y .int32
  require (!op.overflows a.toUInt32 b.toUInt32)
  setInt32Result (op.value a.toUInt32 b.toUInt32)

/-! ## All operations -/

/-- What one instruction does, with the displacement of each field. -/
def instruction [ClassTable] (env : Env) (disp : Nat → Int32) :
    (op : Op) → Args op.schema → Virtual Unit
  | .guardIsObject, (x, _) => guardType x .object
  | .guardIsString, (x, _) => guardType x .string
  | .guardIsSymbol, (x, _) => guardType x .symbol
  | .guardIsInt32, (x, _) => guardType x .int32
  | .guardIsNumber, (x, _) => guardNumber x
  | .guardIsArray, (x, _) => guardArray env x
  | .guardShape, (x, i, _) => guardHeader env x Layout.objectShape (disp i)
  | .guardGroup, (x, i, _) => guardHeader env x Layout.objectGroup (disp i)
  | .guardClass, (x, c, _) => guardClass env x c
  | .guardSpecificObject, (x, i, _) => guardSpecific env x .object (disp i)
  | .guardSpecificAtom, (x, i, _) => guardSpecific env x .string (disp i)
  | .guardSpecificSymbol, (x, i, _) => guardSpecific env x .symbol (disp i)
  | .guardSpecificId, (x, i, _) => guardSpecific env x .string (disp i)
  | .loadObject, (y, i, _) => loadObject env y (disp i)
  | .loadProto, (x, y, _) => loadProto env x y
  | .loadFixedSlot, (x, i, y, _) => loadSlot env x y (disp i) false
  | .loadDynamicSlot, (x, i, y, _) => loadSlot env x y (disp i) true
  | .loadInt32Constant, (y, n, _) => define y (.constant (.ofInt32 n))
  | .loadFixedSlotResult, (x, i, _) => slotResult env x (disp i) false
  | .loadDynamicSlotResult, (x, i, _) => slotResult env x (disp i) true
  | .loadInt32ArrayLengthResult, (x, _) => arrayLengthResult env x
  | .loadStringLengthResult, (x, _) => stringLengthResult env x
  | .loadUndefinedResult, _ => setResult Value.undefined.bits
  | .loadBooleanResult, (b, _) => setResult (Value.ofBool b).bits
  | .loadValueResult, (i, _) => do setResult (← field env (disp i))
  | .loadDoubleResult, (i, _) => do setResult (← field env (disp i))
  | .loadOperandResult, (x, _) => operandResult x
  | .int32AddResult, (x, y, _) => arithResult x y .add
  | .int32SubResult, (x, y, _) => arithResult x y .sub
  | .returnFromIC, _ => return ()

/-- What instructions do one after the other. -/
def instructions [ClassTable] (env : Env) (disp : Nat → Int32) : List Instruction → Virtual Unit
  | [] => return ()
  | i :: is => do
    instruction env disp i.op i.args
    instructions env disp is

/-- Finds the next stub and its code, in the headers of the stubs. -/
def next (env : Env) : Virtual (UInt64 × UInt64) := do
  let stub ← pointer env env.stub Layout.stubNext
  let code ← pointer env stub Layout.stubCode
  return (stub, code)

end Virtual

/-- How a stub ends. -/
inductive StubExit where
  /-- It returned a word. -/
  | returned (w : UInt64)
  /-- It jumped to the code of the next stub, and handed on these operands. -/
  | left (operands : Nat → UInt64) (stub code : UInt64)
  /-- It read the part of the stack that it uses for itself. -/
  | wild

namespace Virtual

/-- How a stub ends whose run came to this. -/
def exit (env : Env) : EStateM.Result Stop VirtualState Unit → StubExit
  | .ok () s => .returned s.result
  | .error .wild _ => .wild
  | .error .failed s =>
    match next env s with
    | .ok (stub, code) s => .left (fun i => (s.contents i).word) stub code
    | .error _ _ => .wild

/-- A stub that fails reads where to go on, and hands its operands on. -/
theorem exit_failed (env : Env) (s : VirtualState) :
    exit env (.error .failed s) =
      if env.linked then .left (fun i => (s.contents i).word) env.nextStub env.nextCode
      else .wild := by
  by_cases hnext : (Span.mk (env.stub + Layout.stubNext.toInt64.toUInt64) 8).avoids env.area = true
  · by_cases hcode : (Span.mk (env.nextStub + Layout.stubCode.toInt64.toUInt64) 8).avoids
        env.area = true
    · have h : next env s = .ok (env.nextStub, env.nextCode) s :=
        (bind_of_ok (read64_of_avoids hnext s)).trans (bind_of_ok (read64_of_avoids hcode s))
      rw [exit, h, Env.linked, hnext, hcode]
      rfl
    · have h : next env s = .error .wild s :=
        (bind_of_ok (read64_of_avoids hnext s)).trans (bind_of_error (read64_of_not_avoids hcode s))
      rw [exit, h, Env.linked, Bool.not_eq_true _ |>.mp hcode, Bool.and_false]
      rfl
  · have h : next env s = .error .wild s := bind_of_error (read64_of_not_avoids hnext s)
    rw [exit, h, Env.linked, Bool.not_eq_true _ |>.mp hnext, Bool.false_and]
    rfl

end Virtual
end InlineCache
