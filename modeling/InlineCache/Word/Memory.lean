import InlineCache.Word.Bytes

/-!
# Memory

A byte at every address. Addresses wrap around at the end of the address space.
-/

namespace InlineCache

/-- A byte at every address. -/
abbrev Memory := UInt64 → UInt8

namespace Memory

/-- Zero everywhere. -/
def zero : Memory := fun _ => 0

def read32 (m : Memory) (a : UInt64) : UInt32 :=
  Word.ofBytes32 (m a) (m (a + 1)) (m (a + 2)) (m (a + 3))

def read64 (m : Memory) (a : UInt64) : UInt64 :=
  Word.ofBytes64 (m a) (m (a + 1)) (m (a + 2)) (m (a + 3)) (m (a + 4)) (m (a + 5)) (m (a + 6))
    (m (a + 7))

def write32 (m : Memory) (a : UInt64) (w : UInt32) : Memory := fun x =>
  let i := x - a
  if i < 4 then (w >>> (8 * i.toUInt32)).toUInt8 else m x

def write64 (m : Memory) (a : UInt64) (w : UInt64) : Memory := fun x =>
  let i := x - a
  if i < 8 then (w >>> (8 * i)).toUInt8 else m x

/-- Writes bytes from an address on. -/
def writeBytes (m : Memory) (a : UInt64) (bs : Array UInt8) : Memory := fun x =>
  match bs[(x - a).toNat]? with
  | some b => b
  | none => m x

/-- Writes words from an address on. -/
def writeWords (m : Memory) (a : UInt64) : List UInt64 → Memory
  | [] => m
  | w :: ws => writeWords (m.write64 a w) (a + 8) ws

/-- A word is read back where it was written. -/
@[simp]
theorem read64_write64 (m : Memory) (a w : UInt64) : (m.write64 a w).read64 a = w := by
  have h (k : UInt64) : a + k - a = k := by
    rw [UInt64.add_comm, UInt64.add_sub_cancel]
  simp [read64, write64, h]

end Memory
end InlineCache
