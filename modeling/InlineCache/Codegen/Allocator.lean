import InlineCache.Codegen.Bailout
import InlineCache.Program.Basic

/-!
# Register allocation

Stubs are straight-line code, so operands get their registers in one pass. Each operand has one
place at a time. When no register is free, operands that no later instruction reads give theirs
up; if there are none, an operand that the current instruction does not use is pushed onto the
stack. Inputs never give their places up, because bailouts have to put them back.
-/

namespace InlineCache

open X64

/-- The state of register allocation. -/
structure Allocator where
  /-- Registers that may be handed out. -/
  allocatable : RegisterSet
  numInputs : Nat
  /-- By operand: the last instruction that reads it. -/
  lastUsed : Array Nat
  /-- By input: where it arrived. -/
  origins : Array Place
  /-- By operand: where it is now. -/
  places : Array Place
  /-- Registers that are free. -/
  available : RegisterSet
  /-- Registers that the current instruction uses. They are not spilled. -/
  current : RegisterSet
  /-- Bytes on the stack. -/
  depth : Nat
  maxDepth : Nat
  /-- The number of the current instruction. It is below 2 ^ 32, as those of the program are. -/
  instruction : Nat

/-- Everything that compiling a program changes. -/
structure Codegen where
  asm : Assembly
  alloc : Allocator
  /-- Whether guards with equal snapshots share a bailout. -/
  share : Bool
  bailouts : Array Bailout

/-- A step of code generation. -/
abbrev Gen := EStateM EmitError Codegen

namespace Allocator

/-- No operand has a place yet. -/
def new (p : Program) (e : Engine) : Allocator where
  allocatable := e.allocatable
  numInputs := p.numInputs
  lastUsed := p.lastUsed
  origins := Array.replicate p.numInputs .uninitialized
  places := Array.replicate p.numOperands .uninitialized
  available := e.allocatable
  current := .empty
  depth := 0
  maxDepth := 0
  instruction := 0

/-- Where the inputs are now. -/
def inputs (a : Allocator) : List Place :=
  a.places.toList.take a.numInputs

/-- Whether no instruction from the current one on reads the operand. -/
def isDead (a : Allocator) (index : Nat) : Bool :=
  decide (a.numInputs ≤ index) && decide (a.lastUsed.getD index 0 < a.instruction)

def setPlace (a : Allocator) (index : Nat) (p : Place) : Allocator :=
  { a with places := a.places.setIfInBounds index p }

/-- Marks a register as used by the current instruction. -/
def reserve (a : Allocator) (r : Register) : Allocator :=
  { a with current := a.current.insert r }

/-- Takes the place away from an operand that is dead. Its stack slot, if it has one, stays. -/
def reclaim (a : Allocator) (index : Nat) : Allocator :=
  if a.isDead index then
    match a.places.getD index .uninitialized with
    | .uninitialized => a
    | p =>
      let a := a.setPlace index .uninitialized
      match p.register? with
      | some r => { a with available := a.available.insert r }
      | none => a
  else a

/-- Takes the places away from all operands that are dead. -/
def reclaimDead (a : Allocator) : Allocator :=
  (List.range a.places.size).foldl reclaim a

/-- The first operand in a register that the current instruction does not use. -/
def victim? (a : Allocator) : Option Nat :=
  a.places.findIdx? fun p => p.register?.any fun r => !a.current.contains r

/-- The operand in a register. -/
def occupant? (a : Allocator) (r : Register) : Option Nat :=
  a.places.findIdx? fun p => p.register? == some r

/-- Moves on to the next instruction. -/
def nextInstruction (a : Allocator) : Allocator :=
  { a with current := .empty, instruction := a.instruction + 1 }

end Allocator

namespace Gen

/-- Writes code. -/
def emit {α : Type} (e : Emit α) : Gen α := fun s =>
  match e.run s.asm with
  | .ok a asm => .ok a { s with asm }
  | .error e asm => .error e { s with asm }

def code (c : Snippet.Code) : Gen Unit :=
  emit (Emit.code c)

def code? (c : Except EmitError Snippet.Code) : Gen Unit :=
  emit (Emit.code? c)

def allocator : Gen Allocator := do
  return (← get).alloc

def modifyAllocator (f : Allocator → Allocator) : Gen Unit :=
  modify fun s => { s with alloc := f s.alloc }

/-- The place of an operand. -/
def place (index : Nat) : Gen Place := do
  match (← allocator).places[index]? with
  | some p => return p
  | none => throw (.noOperand index)

def setPlace (index : Nat) (p : Place) : Gen Unit := do
  if index < (← allocator).places.size then modifyAllocator (·.setPlace index p)
  else throw (.noOperand index)

/-! ## Inputs -/

/-- Records where an input arrives: boxed in a register, or as a constant. -/
def initInput (index : Nat) (p : Place) : Gen Unit := do
  match p with
  | .valueReg r => modifyAllocator fun a => { a with available := a.available.erase r }
  | .constant _ => pure ()
  | p => throw (.inputNotBoxed index p)
  if index < (← allocator).origins.size then
    modifyAllocator fun a => { a with origins := a.origins.setIfInBounds index p }
    setPlace index p
  else throw (.noOperand index)

/-! ## The stack -/

def setDepth (depth : Nat) : Gen Unit :=
  modifyAllocator fun a => { a with depth }

/-- Pushes a register. -/
def push (r : Register) : Gen Unit := do
  code [.push r]
  let depth ← emit (Emit.pushed (← allocator).depth)
  modifyAllocator fun a => { a with depth, maxDepth := max a.maxDepth depth }

/-- Brings back what was pushed at `offset`. -/
def reload (dest : Register) (offset : Nat) : Gen Unit := do
  let depth ← emit (Emit.reload dest offset (← allocator).depth)
  setDepth depth

/-- Pushes an operand and frees its register. -/
def spill (index : Nat) : Gen Unit := do
  let p ← place index
  let free (r : Register) : Gen Unit :=
    modifyAllocator fun a =>
      if a.allocatable.contains r then { a with available := a.available.insert r } else a
  match p with
  | .payloadReg r t =>
    push r
    setPlace index (.payloadStack (← allocator).depth t)
    free r
  | .valueReg r =>
    push r
    setPlace index (.valueStack (← allocator).depth)
    free r
  | p => throw (.notInRegister index p)

/-- Forgets all operands and drops what was pushed. -/
def discardStack : Gen Unit := do
  modifyAllocator fun a => { a with places := a.places.map fun _ => .uninitialized }
  let depth := (← allocator).depth
  if 0 < depth then
    code (Snippet.dropStack depth)
    setDepth 0

/-! ## Registers -/

/-- Pushes an operand if no register is free. -/
def makeRoom : Gen Unit := do
  let a ← allocator
  if a.available.isEmpty then
    match a.victim? with
    | some index => spill index
    | none => return ()

/-- Takes the highest register that is free. -/
def takeHighest : Gen Register := do
  let a ← allocator
  match a.available.takeHighest? with
  | none => throw (.outOfRegisters a.instruction)
  | some (r, rest) =>
    modifyAllocator fun a => { a with available := rest, current := a.current.insert r }
    return r

/-- A free register for the current instruction: the highest one that is free, after reclaiming
dead operands if none is, after spilling an operand if none is still. -/
def allocate : Gen Register := do
  modifyAllocator fun a => if a.available.isEmpty then a.reclaimDead else a
  makeRoom
  takeHighest

/-- Pushes the operand in a register that is not free. -/
def vacate (r : Register) : Gen Unit := do
  let a ← allocator
  if a.available.contains r then return ()
  else if a.current.contains r then throw (.registerInUse r a.instruction)
  else
    match a.occupant? r with
    | some index => spill index
    | none => throw (.registerNotHeld r)

/-- This very register for the current instruction; whatever is in it is spilled. -/
def allocateFixed (r : Register) : Gen Unit := do
  modifyAllocator fun a => if a.available.contains r then a else a.reclaimDead
  vacate r
  modifyAllocator fun a =>
    { a with available := a.available.erase r, current := a.current.insert r }

/-- Gives a register back. -/
def release (r : Register) : Gen Unit := do
  if (← allocator).available.contains r then throw (.registerFree r)
  modifyAllocator fun a => { a with available := a.available.insert r }

/-! ## Operands -/

/-- The operand boxed in a register. -/
def useValue (index : Nat) : Gen Register := do
  match ← place index with
  | .valueReg r =>
    modifyAllocator (·.reserve r)
    return r
  | .valueStack offset =>
    let r ← allocate
    reload r offset
    setPlace index (.valueReg r)
    return r
  | .payloadReg r t =>
    code? (Snippet.tag t r r)
    modifyAllocator (·.reserve r)
    setPlace index (.valueReg r)
    return r
  | .payloadStack offset t =>
    let r ← allocate
    reload r offset
    code? (Snippet.tag t r r)
    setPlace index (.valueReg r)
    return r
  | .constant v =>
    let r ← allocate
    code [.movImm r v.bits]
    setPlace index (.valueReg r)
    return r
  | .uninitialized => throw (.uninitialized index)

/-- Turns a payload of type `known` in a register into one of type `wanted`. The two differ behind a
guard that always fails, and where a program uses an operand as what it is not. -/
def retype (r : Register) (known wanted : ValueType) : Gen Unit := do
  if known ≠ wanted then
    code? (Snippet.tag known r r)
    code? (Snippet.unbox r r wanted)

/-- The payload of a constant as an operand of type `t`. -/
def constantPayload (v : Value) : ValueType → UInt64
  | .int32 | .boolean => v.payload &&& 0xFFFFFFFF
  | _ => v.payload

/-- The payload of the operand in a register, under the assumption that it is of type `t`. A boxed
value is unboxed in place. -/
def usePayload (index : Nat) (t : ValueType) : Gen Register := do
  match ← place index with
  | .payloadReg r known =>
    retype r known t
    if known ≠ t then setPlace index (.payloadReg r t)
    modifyAllocator (·.reserve r)
    return r
  | .valueReg r =>
    code? (Snippet.unbox r r t)
    modifyAllocator (·.reserve r)
    setPlace index (.payloadReg r t)
    return r
  | .payloadStack offset known =>
    let r ← allocate
    reload r offset
    retype r known t
    setPlace index (.payloadReg r t)
    return r
  | .valueStack offset =>
    let r ← allocate
    reload r offset
    code? (Snippet.unbox r r t)
    setPlace index (.payloadReg r t)
    return r
  | .constant v =>
    let r ← allocate
    code [.movImm r (constantPayload v t)]
    setPlace index (.payloadReg r t)
    return r
  | .uninitialized => throw (.uninitialized index)

/-- A register for an operand that the current instruction defines. -/
def defineAt (index : Nat) (place : Register → Place) : Gen Register := do
  if (← Gen.place index) ≠ .uninitialized then throw (.definedTwice index)
  let r ← allocate
  setPlace index (place r)
  return r

/-- Defines an operand as a payload of type `t`. -/
def definePayload (index : Nat) (t : ValueType) : Gen Register :=
  defineAt index (.payloadReg · t)

/-- Defines an operand as a boxed value. -/
def defineValue (index : Nat) : Gen Register :=
  defineAt index .valueReg

/-! ## Bailouts -/

/-- The label that a guard branches to when it fails here. Only the latest bailout is considered
for sharing. -/
def bailout : Gen Label := do
  let s ← get
  let inputs := s.alloc.inputs
  let depth := s.alloc.depth
  let fresh : Gen Label := do
    let label ← emit Emit.newLabel
    modify fun s => { s with bailouts := s.bailouts.push ⟨inputs, depth, label⟩ }
    return label
  match s.bailouts.back? with
  | some b => if s.share && b.serves inputs depth then return b.label else fresh
  | none => fresh

end Gen
end InlineCache
