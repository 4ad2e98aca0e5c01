import InlineCache.Codegen.Compile
import InlineCache.Stub.Info

/-!
# Stub chains

The stubs of a cache site form a chain: each leads to the next, and the last to the fallback. A
stub runs shared code over a data block of its own.
-/

namespace InlineCache

/-- Code together with the info that describes it. Stubs that were compiled once share one of
these; its number tells it from others with the same content. -/
structure CompiledStub where
  number : Nat
  info : StubInfo
  code : StubCode

/-- Where control goes when a stub fails. -/
inductive Link where
  | stub (index : Nat)
  | fallback
deriving DecidableEq

/-- A stub of a chain. -/
structure Stub where
  compiled : CompiledStub
  data : List UInt8
  next : Link

/-- Why a stub cannot be made or attached. -/
inductive AttachError where
  | compile (e : CompileError)
  | data (e : DataError)
  /-- The info places the data elsewhere than stubs do. -/
  | headerLayout

namespace AttachError

def message? : AttachError → Option String
  | .compile e => e.message?
  | .data e => e.message?
  | .headerLayout => some "stub info built for a different header layout"

end AttachError

namespace Stub

/-- A stub with a data block of zeros. -/
def new (c : CompiledStub) : Except AttachError Stub :=
  if c.info.dataOffset = Layout.stubData then
    match c.info.typesEnd with
    | .error e => .error (.data e)
    | .ok () =>
      .ok { compiled := c, data := List.replicate c.info.dataSize 0, next := .fallback }
  else .error .headerLayout

end Stub

/-- The stubs of a cache site. -/
structure Chain where
  stubs : Array Stub := #[]

namespace Chain

/-- The first stub, or the fallback if there is none. -/
def first (c : Chain) : Link :=
  if c.stubs.isEmpty then .fallback else .stub 0

/-- Puts a stub at the end of the chain, before the fallback. -/
def append (c : Chain) (s : Stub) : Chain :=
  let linked := c.stubs.modify (c.stubs.size - 1) fun last =>
    { last with next := .stub c.stubs.size }
  { stubs := linked.push { s with next := .fallback } }

/-- Visits every pointer in the data of stubs, in the order of the chain. -/
def traceStubs {σ : Type} (visit : StubInfo.Tracer σ) : List Stub → StateM σ (List Stub)
  | [] => return []
  | s :: ss => do
    let data ← fun state =>
      match (s.compiled.info.traceData visit).run (s.data, state) with
      | .ok () s => s
      | .error _ s => s
    let ss ← traceStubs visit ss
    return { s with data } :: ss

def trace {σ : Type} (visit : StubInfo.Tracer σ) (c : Chain) : StateM σ Chain := do
  return { stubs := (← traceStubs visit c.stubs.toList).toArray }

end Chain
end InlineCache
