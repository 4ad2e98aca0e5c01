import InlineCache.Stub.Chain

/-!
# Attaching stubs

Machine code depends on the bytes of a program, the kind of its site, the engine, and on whether
bailouts are shared. It does not depend on constants, because they live in stub data. The code table
keeps one compiled stub for each kind, engine and bytes, the one that was compiled first, with
whatever option it was compiled. Attaching a program finds or compiles its code, gives up if the
chain already has the same stub, and else appends a new one.
-/

namespace InlineCache

/-- What a compiled stub is found by. Of all that machine code depends on, it leaves out whether
bailouts are shared. -/
structure CodeKey where
  kind : CacheKind
  engine : Engine
  code : List UInt8
deriving DecidableEq

/-- The key of a program. -/
def Program.key (p : Program) (e : Engine) : CodeKey :=
  ⟨p.kind, e, p.code.toList⟩

/-- Compiled stubs by key. -/
structure CodeTable where
  entries : List (CodeKey × CompiledStub) := []
  /-- How many stubs have been compiled, in the table or not. -/
  numCompiled : Nat := 0

namespace CodeTable

def find? (t : CodeTable) (k : CodeKey) : Option CompiledStub :=
  t.entries.lookup k

def size (t : CodeTable) : Nat :=
  t.entries.length

/-- Adds an entry; an entry with the same key gives way. -/
def insert (t : CodeTable) (k : CodeKey) (c : CompiledStub) : CodeTable :=
  { t with entries := (k, c) :: t.entries.filter fun e => e.1 ≠ k }

end CodeTable

/-- What attaching changes. -/
structure AttachState where
  table : CodeTable
  chain : Chain
  /-- Reports to the collector. -/
  barriers : Array Barrier := #[]

/-- A step of attaching. -/
abbrev Attach := EStateM AttachError AttachState

/-- How an attempt to attach a stub ended. -/
inductive Decision where
  | attached
  /-- The chain already has this stub. -/
  | duplicate
deriving DecidableEq

namespace Decision

def name : Decision → String
  | .attached => "Attached"
  | .duplicate => "Duplicate"

end Decision

namespace Attach

/-- Numbers a stub that was just compiled. -/
def register (info : StubInfo) (code : StubCode) : Attach CompiledStub := do
  let s ← get
  let number := s.table.numCompiled
  set { s with table := { s.table with numCompiled := number + 1 } }
  return { number, info, code }

/-- Compiles a program and describes it, with its data at an offset from the stub header. -/
def compileStub [ClassTable] (p : Program) (e : Engine) (inputs : Inputs) (o : Options)
    (dataOffset : Nat) :
    Attach CompiledStub := do
  match InlineCache.compile p e inputs o with
  | .error e => throw (.compile e)
  | .ok code => register (.ofProgram p e false dataOffset) code

/-- The code of a program from the table, or else compiled and put there, if the options ask for
the table. -/
def findOrCompile [ClassTable] (p : Program) (e : Engine) (o : Options) : Attach CompiledStub := do
  let inputs := Inputs.registers p.numInputs p.kind.numInputs_le_two
  if o.useCodeTable then
    match (← get).table.find? (p.key e) with
    | some c => return c
    | none =>
      let c ← compileStub p e inputs o Layout.stubData
      modify fun s => { s with table := s.table.insert (p.key e) c }
      return c
  else compileStub p e inputs o Layout.stubData

/-- Makes a stub, fills its data and puts it at the end of the chain. -/
def appendStub (p : Program) (c : CompiledStub) : Attach Unit := do
  match Stub.new c with
  | .error e => throw e
  | .ok stub =>
    let s ← get
    match p.fillData.run ⟨stub.data, s.barriers⟩ with
    | .error e f =>
      set { s with barriers := f.barriers }
      throw (.data e)
    | .ok () f =>
      set { s with
        chain := s.chain.append { stub with data := f.data }
        barriers := f.barriers }

/-- Whether a stub runs this program with these fields. -/
def isDuplicate (p : Program) (e : Engine) (c : CompiledStub) (stub : Stub) : Bool :=
  let info := stub.compiled.info
  (stub.compiled.number == c.number
      || (info.engine == e && info.kind == p.kind && info.code == p.code.toList))
    && p.dataEquals stub.data

/-- Attaches a program to the chain, unless the chain already has its stub. -/
def attach [ClassTable] (p : Program) (e : Engine) (o : Options) : Attach Decision := do
  let c ← findOrCompile p e o
  if (← get).chain.stubs.any (isDuplicate p e c) then return .duplicate
  appendStub p c
  return .attached

end Attach
end InlineCache
