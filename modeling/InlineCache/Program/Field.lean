import InlineCache.Heap.Key
import InlineCache.Value.Text

/-!
# Stub fields

A program keeps its constants out of its bytes: they are fields, stored in the data block of each
stub, and an instruction names a field by its index. Every field is one word of a known type. A
list of field types is written as one byte per type and ends with the byte of `FieldTag.limit`.
-/

namespace InlineCache

/-- What the word of a field means. -/
inductive FieldType where
  | rawWord
  | rawInt64
  | shape
  | object
  | group
  | symbol
  | string
  | id
  | value
deriving DecidableEq

namespace FieldType

/-- Bytes that a field takes in a data block. -/
def size (_ : FieldType) : Nat := 8

/-- Bytes that fields of these types take one after the other. -/
def totalSize : List FieldType → Nat
  | [] => 0
  | t :: ts => t.size + totalSize ts

/-- Whether the word can be a pointer that the collector knows. -/
def isGC : FieldType → Bool
  | .rawWord | .rawInt64 => false
  | _ => true

end FieldType

/-- An entry in a list of field types: a type, or the end of the list. -/
inductive FieldTag where
  | type (t : FieldType)
  | limit
deriving DecidableEq

namespace FieldTag

/-- Every tag, in the order of the bytes. -/
def all : List FieldTag :=
  [.type .rawWord, .type .rawInt64, .type .shape, .type .object, .type .group, .type .symbol,
    .type .string, .type .id, .type .value, .limit]

def byte : FieldTag → UInt8
  | .type .rawWord => 0
  | .type .rawInt64 => 1
  | .type .shape => 2
  | .type .object => 3
  | .type .group => 4
  | .type .symbol => 5
  | .type .string => 6
  | .type .id => 7
  | .type .value => 8
  | .limit => 9

def ofByte? (b : UInt8) : Option FieldTag :=
  all[b.toNat]?

theorem ofByte?_byte (t : FieldTag) : ofByte? t.byte = some t := by
  cases t with
  | limit => rfl
  | type t => cases t <;> rfl

def name : FieldTag → String
  | .type .rawWord => "RawWord"
  | .type .rawInt64 => "RawInt64"
  | .type .shape => "Shape"
  | .type .object => "JSObject"
  | .type .group => "ObjectGroup"
  | .type .symbol => "Symbol"
  | .type .string => "String"
  | .type .id => "Id"
  | .type .value => "Value"
  | .limit => "Limit"

def ofName? (s : String) : Option FieldTag :=
  all.find? fun t => t.name == s

def isGC : FieldTag → Bool
  | .type t => t.isGC
  | .limit => false

/-- The end of a list of types was asked for its size. -/
structure NoSize where

def NoSize.message (_ : NoSize) : String :=
  "Limit has no size"

/-- Bytes that an entry takes in a data block. The end of the list is not in the block. -/
def size : FieldTag → Except NoSize Nat
  | .type t => .ok t.size
  | .limit => .error ⟨⟩

end FieldTag

namespace FieldType

def byte (t : FieldType) : UInt8 :=
  (FieldTag.type t).byte

def name (t : FieldType) : String :=
  (FieldTag.type t).name

end FieldType

/-- A constant of a program: a word and its type. -/
structure Field where
  type : FieldType
  word : UInt64
deriving DecidableEq

namespace Field

def size (f : Field) : Nat :=
  f.type.size

/-- Raw fields are written in decimal, keys and values by content, pointers as words. -/
def text (f : Field) : String :=
  let content :=
    match f.type with
    | .rawWord | .rawInt64 => Text.decimal f.word.toNat
    | .id => PropertyKey.text ⟨f.word⟩
    | .value => Value.text ⟨f.word⟩
    | _ => Text.hexWord f.word
  f.type.name ++ "(" ++ content ++ ")"

/-- Whether the collector has to visit the field while it holds this word. Keys and values count
only if they hold a heap thing. -/
def holdsGCThing (f : Field) : Bool :=
  match f.type with
  | .rawWord | .rawInt64 => false
  | .id => PropertyKey.isGCThing ⟨f.word⟩
  | .value => Value.isGCThing ⟨f.word⟩
  | _ => true

end Field
end InlineCache
