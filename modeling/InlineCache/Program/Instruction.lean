import InlineCache.Program.Cursor

/-!
# Instructions

An instruction is an operation with one argument for each place of its schema. The type of the
arguments is computed from the schema, so an instruction of the wrong form cannot be written down.
`Instruction.bytes` and `Instruction.read` are the two directions of the encoding.
-/

namespace InlineCache

/-- What stands at a place of the schema: an operand, an immediate or the index of a field. -/
@[reducible]
def ArgKind.Decoded : ArgKind → Type
  | .use => OperandId
  | .define => OperandId
  | .classKind => ClassKind
  | .bool => Bool
  | .int32 => Int32
  | .field _ => Nat

/-- One argument for each place of a schema. -/
@[reducible]
def Args : List ArgKind → Type
  | [] => Unit
  | k :: ks => k.Decoded × Args ks

/-- An operation and its arguments. -/
structure Instruction where
  op : Op
  args : Args op.schema

namespace ArgKind

def bytes : (k : ArgKind) → k.Decoded → List UInt8
  | .use, x => [x.index.toUInt8]
  | .define, x => [x.index.toUInt8]
  | .classKind, c => [c.byte]
  | .bool, b => [if b then 1 else 0]
  | .int32, i => Word.bytes32 i.toUInt32
  | .field _, index => [index.toUInt8]

def read : (k : ArgKind) → Read k.Decoded
  | .use => Cursor.operand
  | .define => Cursor.operand
  | .classKind => Cursor.classKind
  | .bool => Cursor.bool
  | .int32 => Cursor.int32
  | .field _ => Cursor.fieldIndex

end ArgKind

namespace Args

def bytes : (ks : List ArgKind) → Args ks → List UInt8
  | [], _ => []
  | k :: ks, (a, as) => k.bytes a ++ bytes ks as

/-- A test of one argument just after it was read, given the offset of its first byte. -/
abbrev Check := (k : ArgKind) → Nat → k.Decoded → Except Malformed Unit

/-- Reads the arguments of a schema from left to right and tests each before the next is read. -/
def read (check : Check) : (ks : List ArgKind) → Read (Args ks)
  | [] => return ()
  | k :: ks => do
    let c ← get
    let a ← k.read
    match check k c.offset a with
    | .error e => throw e
    | .ok () =>
      let as ← read check ks
      return (a, as)

end Args

namespace Instruction

def bytes (i : Instruction) : List UInt8 :=
  i.op.byte :: Args.bytes i.op.schema i.args

/-- Reads one instruction as it stands, without a test of its arguments. -/
def read : Read Instruction := do
  let op ← Cursor.op
  let args ← Args.read (fun _ _ _ => .ok ()) op.schema
  return ⟨op, args⟩

/-- Reads instructions up to the end, at most `limit` of them. -/
def readMany : (limit : Nat) → Read (List Instruction)
  | 0 => return []
  | limit + 1 => do
    let c ← get
    if c.more then
      let i ← read
      let is ← readMany limit
      return i :: is
    else return []

/-- The instructions of a byte string. Each takes at least one byte, so the number of bytes bounds
their number. -/
def decode (bytes : List UInt8) : Except Malformed (List Instruction) :=
  match (readMany bytes.length).run (Cursor.start bytes) with
  | .ok is _ => .ok is
  | .error e _ => .error e

end Instruction
end InlineCache
