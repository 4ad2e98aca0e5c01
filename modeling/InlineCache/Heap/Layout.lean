/-!
# Where things lie in heap objects and stubs

Byte offsets that compiled code relies on. An object starts with its group, its shape, the pointer
to its dynamic slots and the pointer to its elements; its fixed slots follow. The length of the
elements stands four bytes before the first element.
-/

namespace InlineCache.Layout

def objectGroup : Int32 := 0
def objectShape : Int32 := 8
def objectSlots : Int32 := 16
def objectElements : Int32 := 24
/-- Size of an object header, and so the offset of the first fixed slot. -/
def objectFixedSlots : Nat := 32

def groupClass : Int32 := 0
def groupProto : Int32 := 8

def stringLength : Int32 := 4

/-- Relative to the elements pointer. -/
def elementsLength : Int32 := -4

/-- Bytes of a slot. -/
def slotSize : Nat := 8

def stubCode : Int32 := 0
def stubNext : Int32 := 8
/-- Size of a stub header, and so the offset of its data block. -/
def stubData : Nat := 24

/-- A byte offset, if it can be written with 32 bits. -/
def offset32? (n : Nat) : Option Nat :=
  if n < 0x100000000 then some n else none

/-- Offset of a fixed slot from the start of its object. -/
def fixedSlot? (index : Nat) : Option Nat :=
  offset32? (objectFixedSlots + slotSize * index)

/-- Offset of a dynamic slot from the start of the slots. -/
def dynamicSlot? (index : Nat) : Option Nat :=
  offset32? (slotSize * index)

end InlineCache.Layout
