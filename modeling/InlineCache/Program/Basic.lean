import InlineCache.Program.Arg
import InlineCache.Program.CacheKind
import InlineCache.Word.Bytes

/-!
# Programs

A program grows by appending instructions. Beside its bytes it keeps the fields that hold its
constants and, for each operand, the last instruction that reads it. Appending is a computation on
programs that keeps what was written before it failed: an instruction that is refused half-way
leaves its first bytes behind.
-/

namespace InlineCache

/-- A stub program under construction. Instructions are counted by numbers of 32 bits; what happens
to a program that has 2 ^ 32 of them, when the count overflows, is not described. -/
structure Program where
  kind : CacheKind
  code : Array UInt8
  /-- By operand: the last instruction that reads it, or else the one that defines it. The numbers
  of instructions are below 2 ^ 32. -/
  lastUsed : Array Nat
  fields : Array Field
  /-- Below 2 ^ 32. -/
  numInstructions : Nat
deriving DecidableEq

/-- Why an instruction is refused. -/
inductive BuildError where
  /-- The arguments do not match the schema. Nothing was written. -/
  | schema (e : SchemaError)
  /-- The number of the operand needs more than a byte. -/
  | operandTooLarge (x : OperandId)
  /-- There is no such operand. -/
  | noOperand (x : OperandId)
  /-- The index of the field needs more than a byte. -/
  | fieldTooLarge (index : Nat)

namespace BuildError

def message? : BuildError → Option String
  | .schema e => some e.message
  | .operandTooLarge x => some ("operand id " ++ x.text ++ " does not fit in a byte")
  | .noOperand _ => none
  | .fieldTooLarge index =>
    some ("stub field #" ++ Text.decimal index ++ " does not fit in a byte")

end BuildError

/-- A computation that appends to a program. -/
abbrev Build := EStateM BuildError Program

namespace Program

/-- The empty program of a kind of site. -/
def empty (kind : CacheKind) : Program where
  kind := kind
  code := #[]
  lastUsed := Array.replicate kind.numInputs 0
  fields := #[]
  numInstructions := 0

def numInputs (p : Program) : Nat :=
  p.kind.numInputs

def numOperands (p : Program) : Nat :=
  p.lastUsed.size

/-- Bytes that the fields take in a data block. -/
def dataSize (p : Program) : Nat :=
  FieldType.totalSize (p.fields.toList.map Field.type)

/-- A kind of site has fewer inputs than was asked for. -/
structure NoInput where
  index : Nat
  kind : CacheKind

def NoInput.message (e : NoInput) : String :=
  "no input " ++ Text.decimal e.index ++ " for " ++ e.kind.name

/-- The operand of an input. -/
def input (p : Program) (index : Nat) : Except NoInput OperandId :=
  if index < p.numInputs then .ok ⟨index⟩ else .error ⟨index, p.kind⟩

def lastUsed? (p : Program) (x : OperandId) : Option Nat :=
  p.lastUsed[x.index]?

/-- Whether no instruction from `current` on reads the operand. -/
def isDead? (p : Program) (x : OperandId) (current : Nat) : Option Bool :=
  (p.lastUsed? x).map fun last => decide (last < current)

def fieldType? (p : Program) (index : Nat) : Option FieldType :=
  p.fields[index]?.map Field.type

/-! ## Appending -/

def writeByte (b : UInt8) : Build Unit :=
  modify fun p => { p with code := p.code.push b }

def writeBytes (bs : List UInt8) : Build Unit :=
  modify fun p => { p with code := p.code ++ bs.toArray }

/-- Adds a field at the end and returns its index. -/
def addField (f : Field) : Build Nat := do
  let p ← get
  set { p with fields := p.fields.push f }
  return p.fields.size

/-- Writes an operand that the current instruction reads, and notes that it does. -/
def writeUse (x : OperandId) : Build Unit := do
  if 255 < x.index then throw (.operandTooLarge x)
  writeByte x.index.toUInt8
  let p ← get
  if x.index < p.lastUsed.size then
    set { p with lastUsed := p.lastUsed.setIfInBounds x.index p.numInstructions }
  else throw (.noOperand x)

/-- Makes a new operand and writes it. Operand numbers have 16 bits. -/
def writeDef : Build OperandId := do
  let p ← get
  let x : OperandId := ⟨p.lastUsed.size % 0x10000⟩
  set { p with lastUsed := p.lastUsed.push p.numInstructions }
  if 255 < x.index then throw (.operandTooLarge x)
  writeByte x.index.toUInt8
  return x

/-- Adds a field and writes its index. -/
def writeField (f : Field) : Build Unit := do
  let index ← addField f
  if 255 < index then throw (.fieldTooLarge index)
  writeByte index.toUInt8

def writeArg : Arg → Build Unit
  | .operand x => writeUse x
  | .classKind c => writeByte c.byte
  | .bool b => writeByte (if b then 1 else 0)
  | .int32 i => writeBytes (Word.bytes32 i.toUInt32)
  | .field f => writeField f

/-- Writes arguments in the order of the schema. An operand that the instruction defines is made
on the way and returned. -/
def writeArgs : List ArgKind → List Arg → Build (Option OperandId)
  | .define :: ks, args => do
    let x ← writeDef
    let later ← writeArgs ks args
    return some (later.getD x)
  | _ :: ks, a :: args => do
    writeArg a
    writeArgs ks args
  | _, _ => return none

/-- Appends an instruction and returns the operand that it defines, if it defines one. -/
def emit (op : Op) (args : List Arg) : Build (Option OperandId) := do
  match op.checkArgs args with
  | .error e => throw (.schema e)
  | .ok () =>
    writeByte op.byte
    let defined ← writeArgs op.schema args
    modify fun p => { p with numInstructions := p.numInstructions + 1 }
    return defined

end Program
end InlineCache
