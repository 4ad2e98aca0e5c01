import InlineCache.Codegen.Engine
import InlineCache.Stub.Data

/-!
# Stub info

What all stubs with the same code have in common. The bytes of the program, the types of its
fields and the mark that ends them are packed into one block; the types start where the program
ends. The length of the program is kept as a number of 32 bits. If it needs more, the low bits are
left, and bytes of the program are taken for types.
-/

namespace InlineCache

/-- The description shared by stubs with the same code. -/
structure StubInfo where
  kind : CacheKind
  engine : Engine
  makesGCCalls : Bool
  /-- Where the data block starts in a stub. -/
  dataOffset : Nat
  codeLength : Nat
  /-- The program, one byte for each field type, and the end mark. -/
  block : List UInt8

namespace StubInfo

def ofProgram (p : Program) (engine : Engine) (makesGCCalls : Bool) (dataOffset : Nat) :
    StubInfo where
  kind := p.kind
  engine := engine
  makesGCCalls := makesGCCalls
  dataOffset := dataOffset
  codeLength := p.code.size.toUInt32.toNat
  block := p.code.toList ++ p.fields.toList.map (·.type.byte) ++ [FieldTag.limit.byte]

/-- The bytes of the program. -/
def code (s : StubInfo) : List UInt8 :=
  s.block.take s.codeLength

/-- The type of a field, or the end mark one past the last. -/
def fieldTag? (s : StubInfo) (index : Nat) : Option FieldTag :=
  s.block[s.codeLength + index]?.bind FieldTag.ofByte?

/-- The types up to the end mark, or up to a byte that is no type. Reading on from there is an
error. -/
def typesOf : List UInt8 → List FieldType × Except DataError Unit
  | [] => ([], .ok ())
  | b :: bs =>
    match FieldTag.ofByte? b with
    | some (.type t) => (typesOf bs).map (t :: ·) id
    | some .limit => ([], .ok ())
    | none => ([], .error .outOfBounds)

/-- The types that can be read. -/
def fieldTypes (s : StubInfo) : List FieldType :=
  (typesOf (s.block.drop s.codeLength)).1

/-- Whether the end mark is behind the types that can be read. -/
def typesEnd (s : StubInfo) : Except DataError Unit :=
  (typesOf (s.block.drop s.codeLength)).2

/-- The types of all fields. -/
def fieldTypes? (s : StubInfo) : Except DataError (List FieldType) :=
  s.typesEnd.map fun _ => s.fieldTypes

/-- Bytes that fields of the types that can be read take in a data block. -/
def dataSize (s : StubInfo) : Nat :=
  FieldType.totalSize s.fieldTypes

/-- Where a field starts in the data block. -/
def fieldOffset (s : StubInfo) (index : Nat) : Nat :=
  FieldType.totalSize (s.fieldTypes.take index)

/-- Where a field starts, if the types of the fields before it can be read. -/
def fieldOffset? (s : StubInfo) (index : Nat) : Except DataError Nat :=
  if index ≤ s.fieldTypes.length then .ok (s.fieldOffset index)
  else s.typesEnd.map fun _ => s.fieldOffset index

/-- Reads a field back. One past the last field there is a word to read but no field. -/
def field (s : StubInfo) (data : List UInt8) (index : Nat) : Except DataError (Option Field) :=
  match s.fieldTag? index, s.fieldOffset? index with
  | none, _ => .error .outOfBounds
  | _, .error e => .error e
  | some tag, .ok offset =>
    match Block.read? data offset with
    | none => .error .outOfBounds
    | some w =>
      match tag with
      | .type t => .ok (some ⟨t, w⟩)
      | .limit => .ok none

/-- Goes on if the end mark is behind the types that can be read. -/
def endTypes {σ : Type} (s : StubInfo) : EStateM DataError σ Unit :=
  match s.typesEnd with
  | .ok () => return ()
  | .error e => throw e

/-- Copies fields of the given types from one block to another. -/
def copyFields (src : List UInt8) : (offset : Nat) → List FieldType → Fill Unit
  | _, [] => return ()
  | offset, t :: ts => do
    match Block.read? src offset with
    | none => throw .outOfBounds
    | some w =>
      Fill.store offset ⟨t, w⟩
      copyFields src (offset + t.size) ts

/-- Fills a block with the fields of another. -/
def copyData (s : StubInfo) (src : List UInt8) : Fill Unit := do
  copyFields src 0 s.fieldTypes
  s.endTypes

/-! ## Tracing -/

/-- What the collector does with a pointer that it visits: it may replace the word, and it keeps a
state of its own. -/
abbrev Tracer (σ : Type) := FieldType → UInt64 → StateM σ UInt64

/-- Visits fields of the given types. -/
def traceFields {σ : Type} (visit : Tracer σ) : (offset : Nat) → List FieldType →
    EStateM DataError (List UInt8 × σ) Unit
  | _, [] => return ()
  | offset, t :: ts => do
    if t.isGC then
      let (data, state) ← get
      match Block.read? data offset with
      | none => throw .outOfBounds
      | some w =>
        if Field.holdsGCThing ⟨t, w⟩ then
          let (w, state) := (visit t w).run state
          set ((Block.write? data offset w).getD data, state)
    traceFields visit (offset + t.size) ts

/-- Visits every pointer in a data block. -/
def traceData {σ : Type} (s : StubInfo) (visit : Tracer σ) :
    EStateM DataError (List UInt8 × σ) Unit := do
  traceFields visit 0 s.fieldTypes
  s.endTypes

def text (s : StubInfo) : String :=
  "CacheIRStubInfo \x7b kind: " ++ s.kind.name ++ ", engine: " ++ s.engine.name
    ++ ", code_length: " ++ Text.decimal s.codeLength ++ ", fields: ["
    ++ ", ".intercalate (s.fieldTypes.map FieldType.name) ++ "] \x7d"

end StubInfo
end InlineCache
