import InlineCache.Heap.ClassKind
import InlineCache.Heap.Layout
import InlineCache.Word.Memory

/-!
# Heap images

Things of the heap laid out in memory, one in each cell. An object keeps its dynamic slots and its
elements in its own cell. The class descriptors lie outside the cells.
-/

namespace InlineCache.Heap

/-- Address of the first cell. -/
def base : UInt64 := 0x20000000

/-- Bytes of a cell. -/
def cellSize : UInt64 := 0x400

/-- The address of a cell. -/
def cell (index : Nat) : UInt64 :=
  base + cellSize * index.toUInt64

/-- The address of a cell, or the null pointer. -/
def reference : Option Nat → UInt64
  | some index => cell index
  | none => 0

/-- A thing that lies in a cell. References are numbers of cells. -/
inductive Thing where
  | shape (id numFixedSlots : UInt32)
  | group (c : ClassKind) (proto : Option Nat)
  | object (group shape : Option Nat) (length : UInt32) (fixed slots : List UInt64)
  | string (flags length : UInt32)
  | symbol (code : UInt32) (description : Option Nat)

/-- Where an object keeps its dynamic slots in its cell. -/
def slotsOffset : UInt64 := 0x200

/-- Where an object keeps its elements in its cell. -/
def elementsOffset : UInt64 := 0x300

/-- Writes a thing at an address. -/
def Thing.write [ClassTable] (m : Memory) (a : UInt64) : Thing → Memory
  | .shape id numFixedSlots => (m.write32 a id).write32 (a + 4) numFixedSlots
  | .group c proto => (m.write64 a c.address).write64 (a + 8) (reference proto)
  | .object g s length fixed slots =>
    let m := m.writeWords a [reference g, reference s, a + slotsOffset, a + elementsOffset]
    let m := m.writeWords (a + Layout.objectFixedSlots.toUInt64) fixed
    let m := m.writeWords (a + slotsOffset) slots
    let header := a + elementsOffset - 16
    ((m.write32 (header + 4) length).write32 (header + 8) length).write32 (header + 12) length
  | .string flags length => (m.write32 a flags).write32 (a + 4) length
  | .symbol code description => (m.write32 a code).write64 (a + 8) (reference description)

/-- Writes things into the cells from `index` on. -/
def writeThings [ClassTable] : (index : Nat) → List Thing → Memory → Memory
  | _, [], m => m
  | index, t :: ts, m => writeThings (index + 1) ts (t.write m (cell index))

/-- Writes a class descriptor: where its script name lies, and the length of the name. -/
def writeDescriptor [ClassTable] (m : Memory) (c : ClassKind) : Memory :=
  m.writeWords c.address [c.address + 0x10, c.scriptName.utf8ByteSize.toUInt64]

/-- The memory that holds these things, one in each cell. -/
def image [ClassTable] (things : List Thing) : Memory :=
  writeThings 0 things (ClassKind.all.foldl writeDescriptor Memory.zero)

end InlineCache.Heap
