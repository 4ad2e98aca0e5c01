import InlineCache.Codegen.Engine
import InlineCache.Codegen.Error
import InlineCache.Heap.Layout
import InlineCache.X64.Assembly

/-!
# Code snippets

Short instruction sequences with one meaning each: moving, boxing and unboxing values, and testing
them. Snippets may overwrite the scratch register and change no other register but the one they
are asked to.
-/

namespace InlineCache.Snippet

open X64

/-- A sequence of instructions whose branches name labels. -/
abbrev Code := List (Instr Label)

/-- Copies a register; nothing if it is the same one. -/
def move (dest src : Register) : Code :=
  if dest = src then [] else [.mov dest src]

/-- `mov dest, [rsp + offset]` -/
def loadFromStack (dest : Register) (offset : Nat) : Code :=
  [.load dest .rsp offset.toUInt32.toInt32]

/-- Drops bytes from the stack. -/
def dropStack (bytes : Nat) : Code :=
  [.dropStack bytes.toUInt32.toInt32]

/-! ## Boxes -/

/-- Bits above the payload of a pointer. -/
def pointerShift : UInt8 := 17

/-- Extracts the payload of a value of type `t`: pointers lose their tag, integers and booleans
are the low half. -/
def unbox (src dest : Register) (t : ValueType) : Except EmitError Code :=
  if t.isPointer then .ok (move dest src ++ [.shl dest pointerShift, .shr dest pointerShift])
  else
    match t with
    | .int32 | .boolean => .ok [.mov32 dest src]
    | t => .error (.cannotUnbox t)

/-- Boxes a payload of type `t`. -/
def tag (t : ValueType) (payload dest : Register) : Except EmitError Code :=
  let stamp : Code := [.movImm scratchRegister t.shiftedTag, .or dest scratchRegister]
  match t with
  | .int32 | .boolean => .ok (.mov32 dest payload :: stamp)
  | t => if t.isPointer then .ok (move dest payload ++ stamp) else .error (.cannotBox t)

/-! ## Tests -/

/-- Puts the tag of a value into the scratch register. -/
def splitTag (value : Register) : Code :=
  [.mov scratchRegister value, .shr scratchRegister ValueType.tagShift.toUInt8]

/-- Compares the tag of a value with a number and branches. -/
def compareTag (value : Register) (number : UInt64) (c : Condition) (target : Label) : Code :=
  splitTag value ++ [.cmp32Imm scratchRegister number.toUInt32.toInt32, .jcc c target]

/-- Branches if the tag of a value is, or is not, the tag of `t`. -/
def branchType (c : Condition) (value : Register) (t : ValueType) (target : Label) :
    Except EmitError Code :=
  if c = .equal ∨ c = .notEqual then .ok (compareTag value t.tag c target)
  else .error (.notAnEquality c)

/-- Branches if the tag of a value is, or is not, at most `maxTag`. -/
def branchTagAtMost (c : Condition) (value : Register) (maxTag : UInt64) (target : Label) :
    Except EmitError Code :=
  match c with
  | .equal => .ok (compareTag value maxTag .belowOrEqual target)
  | .notEqual => .ok (compareTag value maxTag .above target)
  | c => .error (.notATagRange c)

def branchDouble (c : Condition) (value : Register) (target : Label) : Except EmitError Code :=
  branchTagAtMost c value ValueType.maxDoubleTag target

def branchNumber (c : Condition) (value : Register) (target : Label) : Except EmitError Code :=
  branchTagAtMost c value ValueType.int32.tag target

def branchRegister (c : Condition) (a b : Register) (target : Label) : Code :=
  [.cmp a b, .jcc c target]

/-- Compares `[base + disp]` with a register. -/
def branchMemory (c : Condition) (base : Register) (disp : Int32) (b : Register)
    (target : Label) : Code :=
  [.cmpMem base disp b, .jcc c target]

def branchWord (c : Condition) (a : Register) (w : UInt64) (target : Label) : Code :=
  .movImm scratchRegister w :: branchRegister c a scratchRegister target

/-- Branches if the low half of a register is negative. -/
def branchNegative32 (r : Register) (target : Label) : Code :=
  [.test32 r, .jcc .signed target]

/-- Adds low halves and branches on signed overflow. -/
def addOrBranch (dest src : Register) (target : Label) : Code :=
  [.add32 dest src, .jcc .overflow target]

/-- Subtracts low halves and branches on signed overflow. -/
def subOrBranch (dest src : Register) (target : Label) : Code :=
  [.sub32 dest src, .jcc .overflow target]

/-! ## Chains -/

/-- Enters the next stub of the chain. -/
def enterNext : Code :=
  [.follow Layout.stubNext, .jmpStub Layout.stubCode]

end InlineCache.Snippet
