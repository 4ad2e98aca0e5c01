import InlineCache.Program.Basic

/-!
# Stub data

The data block of a stub holds the words of its fields one after the other. Filling a block stores
each word and, for a field that the collector knows, reports the store to it: the write barrier.
Writes that were done before a failure stay.
-/

namespace InlineCache

namespace Block

/-- The word at an offset. -/
def read? (data : List UInt8) (offset : Nat) : Option UInt64 :=
  (Word.take64? (data.drop offset)).map Prod.fst

/-- Replaces the word at an offset. -/
def write? (data : List UInt8) (offset : Nat) (w : UInt64) : Option (List UInt8) :=
  if offset + 8 ≤ data.length then
    some (data.take offset ++ Word.bytes64 w ++ data.drop (offset + 8))
  else none

end Block

/-- Why a data block cannot be used. -/
inductive DataError where
  /-- A field lies outside the block. -/
  | outOfBounds
  /-- The block is smaller than the fields of the program. Nothing was written. -/
  | tooSmall
deriving DecidableEq

namespace DataError

def message? : DataError → Option String
  | .outOfBounds => none
  | .tooSmall => some "stub data too small"

end DataError

/-- A report to the collector that a word was stored. -/
structure Barrier where
  type : FieldType
  offset : Nat
  word : UInt64
  /-- Whether the word was in its slot when the report was made. -/
  stored : Bool
deriving DecidableEq

/-- A block that is being filled, and the reports made so far. -/
structure Filling where
  data : List UInt8
  barriers : Array Barrier

/-- A computation that fills a block. -/
abbrev Fill := EStateM DataError Filling

namespace Fill

/-- Stores the word of a field, and reports it if the collector knows fields of that type. -/
def store (offset : Nat) (f : Field) : Fill Unit := do
  let s ← get
  match Block.write? s.data offset f.word with
  | none => throw .outOfBounds
  | some data =>
    if f.type.isGC then
      let stored := Block.read? data offset == some f.word
      set (Filling.mk data (s.barriers.push ⟨f.type, offset, f.word, stored⟩))
    else set { s with data }

/-- Stores fields one after the other. -/
def storeAll : (offset : Nat) → List Field → Fill Unit
  | _, [] => return ()
  | offset, f :: fs => do
    store offset f
    storeAll (offset + f.size) fs

end Fill

namespace Program

/-- The words of the fields as they stand in a block. -/
def dataBytes (p : Program) : List UInt8 :=
  p.fields.toList.flatMap fun f => Word.bytes64 f.word

/-- Fills a block with the fields of the program. -/
def fillData (p : Program) : Fill Unit := do
  if (← get).data.length < p.dataSize then throw .tooSmall
  Fill.storeAll 0 p.fields.toList

/-- Whether a block starts with the words of the fields. -/
def dataEquals (p : Program) (data : List UInt8) : Bool :=
  if data.length < p.dataSize then false else matchFrom 0 p.fields.toList
where
  /-- Compares fields from an offset on. -/
  matchFrom (offset : Nat) : List Field → Bool
    | [] => true
    | f :: fs => Block.read? data offset == some f.word && matchFrom (offset + f.size) fs

end Program
end InlineCache
