import InlineCache.Stub.Chain
import InlineCache.X64.Machine

/-!
# Running chains

Entering a chain runs the code of its first stub. A stub that fails jumps to the code of the next
one, which it finds through the headers in memory; the fallback ends the chain. Each stub has a
header in memory, with the addresses of its code and of the next header, and its data behind it.
-/

namespace InlineCache

open X64

/-- How a call of a chain ends. -/
inductive CallResult where
  /-- A stub returned this word. -/
  | returned (w : UInt64)
  /-- All stubs failed, and the fallback received these inputs. -/
  | fallback (input0 input1 : UInt64)
  /-- The code has no meaning. -/
  | stuck

namespace Chain

/-- Where the stubs of a chain lie in memory. -/
def stubBase : UInt64 := 0x40000000

/-- The address that stands for the code of the first stub. -/
def codeBase : UInt64 := 0x60000000

/-- The header of the fallback. -/
def fallbackAddress : UInt64 := 0x30000000

/-- The address that stands for the code of the fallback. -/
def fallbackCode : UInt64 := 0x30001000

/-- The stack pointer when a chain is entered. -/
def stackTop : UInt64 := 0x7FFF00000000

/-- Bytes that a stub takes in memory. -/
def stubSize (s : Stub) : Nat :=
  Layout.stubData + s.data.length

/-- Bytes that stubs take one after the other. -/
def totalSize : List Stub → Nat
  | [] => 0
  | s :: ss => stubSize s + totalSize ss

/-- The address of the header of a stub. -/
def headerAddress (c : Chain) (index : Nat) : UInt64 :=
  stubBase + (totalSize (c.stubs.toList.take index)).toUInt64

def linkAddress (c : Chain) : Link → UInt64
  | .stub index => c.headerAddress index
  | .fallback => fallbackAddress

/-- The address that stands for the code of a stub. -/
def codeAddress (index : Nat) : UInt64 :=
  codeBase + index.toUInt64

/-- Writes a header and the data behind it. -/
def writeStub (m : Memory) (a code next : UInt64) (data : List UInt8) : Memory :=
  let m := m.write64 (a + Layout.stubCode.toInt64.toUInt64) code
  let m := m.write64 (a + Layout.stubNext.toInt64.toUInt64) next
  m.writeBytes (a + Layout.stubData.toUInt64) data.toArray

/-- Writes the stubs of a chain, counted from `index`. -/
def writeStubs (c : Chain) : (index : Nat) → List Stub → Memory → Memory
  | _, [], m => m
  | index, s :: ss, m =>
    c.writeStubs (index + 1) ss
      (writeStub m (c.headerAddress index) (codeAddress index) (c.linkAddress s.next) s.data)

/-- The heap together with the headers and data of the chain. -/
def memory (c : Chain) (heap : Memory) : Memory :=
  c.writeStubs 0 c.stubs.toList (writeStub heap fallbackAddress fallbackCode 0 [])

/-- The stub whose code an address stands for. -/
def stubAt? (c : Chain) (code : UInt64) : Option Stub :=
  c.stubs[(code - codeBase).toNat]?

/-- Enters the code that an address stands for, and what it jumps to, at most `limit` stubs. -/
def enter (c : Chain) : (limit : Nat) → (code : UInt64) → Machine → CallResult
  | 0, _, _ => .stuck
  | limit + 1, code, m =>
    if code = fallbackCode then .fallback (m.reg .rdi) (m.reg .rsi)
    else
      match c.stubAt? code with
      | none => .stuck
      | some s =>
        match X64.run s.compiled.code.bytes m with
        | .returned m => .returned (m.reg outputRegister)
        | .left target m => c.enter limit target m
        | .stuck _ => .stuck

/-- Calls the chain with two inputs. -/
def call (c : Chain) (heap : Memory) (input0 input1 : UInt64) : CallResult :=
  let mem := c.memory heap
  let header := c.linkAddress c.first
  let m : Machine := { regs := Vector.replicate 16 0, mem, flags := none }
  let m := ((m.setReg .rdi input0).setReg .rsi input1).setReg stubRegister header
  c.enter (c.stubs.size + 1) (mem.read64 (header + Layout.stubCode.toInt64.toUInt64))
    (m.setReg .rsp stackTop)

/-- Whether every stub takes an input in its register, and so hands it on unchanged. -/
def preservesInput (c : Chain) (index : Nat) : Bool :=
  c.stubs.all fun s => s.compiled.code.inputs.inRegister index

end Chain
end InlineCache
