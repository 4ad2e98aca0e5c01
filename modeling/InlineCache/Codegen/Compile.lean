import InlineCache.Codegen.Inputs
import InlineCache.Codegen.Instruction
import InlineCache.Options

/-!
# Compiling programs

A program is read once from front to back. Each instruction is checked while it is read and
compiled at once. A program has at most one result, ends with a return and has no return before
its end. The bailouts follow the code of the last instruction.
-/

namespace InlineCache

open X64

/-- Why a program cannot be compiled. -/
inductive CompileError where
  | malformed (e : Malformed)
  | emit (e : EmitError)
  | labels (e : BadLabels)
  /-- The inputs are not as many as the kind of site has. -/
  | inputCount (kind : CacheKind)

namespace CompileError

def message? : CompileError → Option String
  | .malformed e => some e.message
  | .emit e => e.message?
  | .labels _ => none
  | .inputCount kind =>
    some (kind.name ++ " takes " ++ Text.decimal kind.numInputs ++ " inputs")

end CompileError

/-- A compiled program. -/
structure StubCode where
  bytes : List UInt8
  /-- In the order of the guards that asked for them. -/
  bailouts : List Bailout
  /-- The greatest number of bytes that the body pushes. -/
  stackBytes : Nat
  inputs : Inputs

namespace StubCode

/-- A summary of the code: its length, and its entry at the start. -/
def text (c : StubCode) : String :=
  "JitCode \x7b len: " ++ Text.decimal c.bytes.length ++ ", entry: 0 \x7d"

/-- The rest of a load of a class address into the scratch register, with the placeholder of the
class. Given is what follows the first byte of the load. -/
def classLoad? [ClassTable] : List UInt8 → Option (List UInt8)
  | 0xbb :: rest => do
    let (a, _) ← Word.take64? rest
    let c ← ClassKind.ofAddress? a
    return 0xbb :: Word.bytes64 c.placeholder
  | _ => none

/-- Replaces bytes from the front by `pending`, and class addresses behind by placeholders. -/
def withPlaceholders [ClassTable] : (pending : List UInt8) → List UInt8 → List UInt8
  | _, [] => []
  | p :: pending, _ :: rest => p :: withPlaceholders pending rest
  | [], b :: rest =>
    b :: withPlaceholders (if b = 0x49 then (classLoad? rest).getD [] else []) rest

/-- The bytes as they are shown, with placeholders for class addresses. -/
def shownBytes [ClassTable] (c : StubCode) : List UInt8 :=
  withPlaceholders [] c.bytes

/-- One line for each bailout. -/
def bailoutLines (c : StubCode) : String :=
  String.join (c.bailouts.mapIdx Bailout.line)

end StubCode

/-- A step of compilation. -/
abbrev Compile := EStateM CompileError Codegen

namespace Compile

def gen {α : Type} (g : Gen α) : Compile α := fun s =>
  match g s with
  | .ok a s => .ok a s
  | .error e s => .error (.emit e) s

def malformed {α : Type} (offset : Nat) (what : Malformation) : Compile α :=
  throw (.malformed ⟨offset, what⟩)

/-- Reads at a cursor and returns where it ends. -/
def read {α : Type} (r : Read α) (c : Cursor) : Compile (α × Cursor) :=
  match r.run c with
  | .ok a c => return (a, c)
  | .error e _ => throw (.malformed e)

/-- What the arguments of an instruction have to meet: operands exist, defined ones are fresh,
fields exist and have the type that the schema says. -/
def checkArg (p : Program) (a : Allocator) : Args.Check
  | .use, offset, x =>
    if x.index < p.numOperands then .ok () else .error ⟨offset, .operandOutOfRange⟩
  | .define, offset, x =>
    if p.numOperands ≤ x.index then .error ⟨offset, .operandOutOfRange⟩
    else if x.index < p.numInputs ∨ a.places.getD x.index .uninitialized ≠ .uninitialized then
      .error ⟨offset, .operandDefinedTwice⟩
    else .ok ()
  | .field t, offset, index =>
    match p.fields[index]? with
    | none => .error ⟨offset, .fieldOutOfRange⟩
    | some f => if f.type = t then .ok () else .error ⟨offset, .fieldOfWrongType⟩
  | .classKind, _, _ => .ok ()
  | .bool, _, _ => .ok ()
  | .int32, _, _ => .ok ()

/-- The distances of fields from the stub header, if the first is at `start`. -/
def displacements (start : Nat) : List Field → List Nat
  | [] => []
  | f :: fs => start :: displacements (start + f.size) fs

/-- The displacement of each field of a program. -/
def displacement (p : Program) : Nat → Int32 :=
  let all := (displacements Layout.stubData p.fields.toList).toArray
  fun index => Int32.ofNat (all.getD index 0)

/-- Compiles instructions up to the end, at most `limit` of them. `returned` says whether the
instruction before was a return, `hasResult` whether there was a result. Returns whether the last
instruction was a return. -/
def instructions [ClassTable] (p : Program) (field : Nat → Int32) :
    (limit : Nat) → Cursor → (returned hasResult : Bool) → Compile Bool
  | 0, _, returned, _ => return returned
  | limit + 1, c, returned, hasResult => do
    if !c.more then return returned
    if returned then malformed c.offset .afterReturn
    let (op, afterOp) ← read Cursor.op c
    if op.isResult && hasResult then malformed c.offset .secondResult
    let (args, next) ← read (Args.read (checkArg p (← get).alloc) op.schema) afterOp
    gen (Gen.instruction field op args)
    gen (Gen.modifyAllocator Allocator.nextInstruction)
    instructions p field limit next (op == .returnFromIC) (hasResult || op.isResult)

/-- The code that leaves the stub, given how many bytes are on the stack. -/
def leave (depth : Nat) : Gen Unit := do
  Gen.setDepth depth
  Gen.discardStack
  Gen.code Snippet.enterNext

/-- The code of the bailouts. -/
def bailouts : List Bailout → Gen Unit
  | [] => return ()
  | b :: bs => do
    let origins := (← Gen.allocator).origins.toList
    let depth ← Gen.emit (b.emit origins)
    leave depth
    bailouts bs

/-- Records where the inputs arrive, counted from `index`. -/
def initInputs : (index : Nat) → List Place → Gen Unit
  | _, [] => return ()
  | index, p :: ps => do
    Gen.initInput index p
    initInputs (index + 1) ps

/-- Compiles a whole program. Returns the depth of its stack. -/
def program [ClassTable] (p : Program) (inputs : Inputs) : Compile Nat := do
  gen (initInputs 0 inputs.places)
  -- Every instruction takes at least one byte.
  let returned ← instructions p (displacement p) p.code.size (.start p.code.toList) false false
  if !returned then malformed p.code.size .noReturn
  let s ← get
  gen (bailouts s.bailouts.toList)
  return s.alloc.maxDepth

end Compile

namespace Codegen

/-- Nothing has been compiled yet. -/
def start (p : Program) (e : Engine) (o : Options) : Codegen where
  asm := {}
  alloc := .new p e
  share := o.shareBailouts
  bailouts := #[]

end Codegen

/-- Compiles a program for an engine. -/
def compile [ClassTable] (p : Program) (e : Engine) (inputs : Inputs) (o : Options) :
    Except CompileError StubCode :=
  if inputs.sources.length ≠ p.numInputs then .error (.inputCount p.kind)
  else
    match (Compile.program p inputs).run (.start p e o) with
    | .error e _ => .error e
    | .ok stackBytes s =>
      match s.asm.finish with
      | .error e => .error (.labels e)
      | .ok bytes => .ok { bytes, bailouts := s.bailouts.toList, stackBytes, inputs }

end InlineCache
