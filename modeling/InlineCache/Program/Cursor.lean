import InlineCache.Program.Arg
import InlineCache.Word.Bytes

/-!
# Reading program bytes

A cursor is the rest of a byte string and its distance from the start. Reads past the end consume
nothing; a byte that has no meaning where it stands is consumed and then refused at its own offset.
-/

namespace InlineCache

/-- What is wrong with the bytes of a program. -/
inductive Malformation where
  | unexpectedEnd
  | unknownOpcode
  | badBool
  | truncatedInt32
  | unknownClass
  | operandOutOfRange
  | operandDefinedTwice
  | fieldOutOfRange
  | fieldOfWrongType
  | afterReturn
  | secondResult
  | noReturn
deriving DecidableEq

namespace Malformation

def text : Malformation → String
  | .unexpectedEnd => "unexpected end of code"
  | .unknownOpcode => "unknown opcode"
  | .badBool => "boolean byte out of range"
  | .truncatedInt32 => "truncated int32 immediate"
  | .unknownClass => "unknown class kind"
  | .operandOutOfRange => "operand id out of range"
  | .operandDefinedTwice => "operand defined twice"
  | .fieldOutOfRange => "stub field index out of range"
  | .fieldOfWrongType => "stub field has the wrong type"
  | .afterReturn => "instructions after ReturnFromIC"
  | .secondResult => "more than one result"
  | .noReturn => "program does not end in ReturnFromIC"

end Malformation

/-- A malformation and the offset where it shows. -/
structure Malformed where
  offset : Nat
  what : Malformation
deriving DecidableEq

namespace Malformed

def message (e : Malformed) : String :=
  "malformed CacheIR at byte " ++ Text.decimal e.offset ++ ": " ++ e.what.text

end Malformed

/-- A place in a byte string. -/
structure Cursor where
  offset : Nat
  rest : List UInt8

/-- A computation that reads bytes. -/
abbrev Read := EStateM Malformed Cursor

namespace Cursor

/-- The start of a byte string. -/
def start (bytes : List UInt8) : Cursor :=
  ⟨0, bytes⟩

def more (c : Cursor) : Bool :=
  !c.rest.isEmpty

def byte : Read UInt8 := do
  let c ← get
  match c.rest with
  | [] => throw ⟨c.offset, .unexpectedEnd⟩
  | b :: rest =>
    set (Cursor.mk (c.offset + 1) rest)
    return b

/-- Reads a byte that `meaning?` understands. -/
def byteAs {α : Type} (meaning? : UInt8 → Option α) (otherwise : Malformation) : Read α := do
  let c ← get
  let b ← byte
  match meaning? b with
  | some a => return a
  | none => throw ⟨c.offset, otherwise⟩

def op : Read Op :=
  byteAs Op.ofByte? .unknownOpcode

def operand : Read OperandId := do
  let b ← byte
  return ⟨b.toNat⟩

/-- An operand that readers take to be of type `t`. -/
def operandOf (t : ValueType) : Read TypedOperand := do
  return ⟨← operand, t⟩

def fieldIndex : Read Nat := do
  let b ← byte
  return b.toNat

/-- The truth value of a byte. -/
def boolOfByte? : UInt8 → Option Bool
  | 0 => some false
  | 1 => some true
  | _ => none

def bool : Read Bool :=
  byteAs boolOfByte? .badBool

def int32 : Read Int32 := do
  let c ← get
  match Word.take32? c.rest with
  | none => throw ⟨c.offset, .truncatedInt32⟩
  | some (w, rest) =>
    set (Cursor.mk (c.offset + 4) rest)
    return w.toInt32

def classKind : Read ClassKind :=
  byteAs ClassKind.ofByte? .unknownClass

end Cursor
end InlineCache
