/-!
# Words as bytes

Words of 32 and 64 bits as bytes, the lowest first, and back. Splitting the bytes of a word off a
byte string gives the word (`take32?_bytes32_append`, `take64?_bytes64_append`).
-/

namespace InlineCache.Word

def bytes32 (w : UInt32) : List UInt8 :=
  [w.toUInt8, (w >>> 8).toUInt8, (w >>> 16).toUInt8, (w >>> 24).toUInt8]

def bytes64 (w : UInt64) : List UInt8 :=
  [w.toUInt8, (w >>> 8).toUInt8, (w >>> 16).toUInt8, (w >>> 24).toUInt8, (w >>> 32).toUInt8,
    (w >>> 40).toUInt8, (w >>> 48).toUInt8, (w >>> 56).toUInt8]

/-- The word of 32 bits with these bytes. -/
def ofBytes32 (b0 b1 b2 b3 : UInt8) : UInt32 :=
  (b0.toNat + 0x100 * b1.toNat + 0x10000 * b2.toNat + 0x1000000 * b3.toNat).toUInt32

/-- The word of 64 bits with these bytes. -/
def ofBytes64 (b0 b1 b2 b3 b4 b5 b6 b7 : UInt8) : UInt64 :=
  (b0.toNat + 0x100 * b1.toNat + 0x10000 * b2.toNat + 0x1000000 * b3.toNat
    + 0x100000000 * b4.toNat + 0x10000000000 * b5.toNat + 0x1000000000000 * b6.toNat
    + 0x100000000000000 * b7.toNat).toUInt64

/-- Splits a word of 32 bits off the front. -/
def take32? : List UInt8 → Option (UInt32 × List UInt8)
  | b0 :: b1 :: b2 :: b3 :: rest => some (ofBytes32 b0 b1 b2 b3, rest)
  | _ => none

/-- Splits a word of 64 bits off the front. -/
def take64? : List UInt8 → Option (UInt64 × List UInt8)
  | b0 :: b1 :: b2 :: b3 :: b4 :: b5 :: b6 :: b7 :: rest =>
    some (ofBytes64 b0 b1 b2 b3 b4 b5 b6 b7, rest)
  | _ => none

@[simp]
theorem length_bytes32 (w : UInt32) : (bytes32 w).length = 4 := rfl

@[simp]
theorem length_bytes64 (w : UInt64) : (bytes64 w).length = 8 := rfl

/-- The bytes of a word make up the word. -/
@[simp]
theorem ofBytes32_shifts (w : UInt32) :
    ofBytes32 w.toUInt8 (w >>> 8).toUInt8 (w >>> 16).toUInt8 (w >>> 24).toUInt8 = w := by
  have h := w.toNat_lt
  apply UInt32.toNat_inj.1
  simp [ofBytes32, Nat.shiftRight_eq_div_pow]
  omega

/-- The bytes of a word make up the word. -/
@[simp]
theorem ofBytes64_shifts (w : UInt64) :
    ofBytes64 w.toUInt8 (w >>> 8).toUInt8 (w >>> 16).toUInt8 (w >>> 24).toUInt8
      (w >>> 32).toUInt8 (w >>> 40).toUInt8 (w >>> 48).toUInt8 (w >>> 56).toUInt8 = w := by
  have h := w.toNat_lt
  apply UInt64.toNat_inj.1
  simp [ofBytes64, Nat.shiftRight_eq_div_pow]
  omega

@[simp]
theorem take32?_bytes32_append (w : UInt32) (rest : List UInt8) :
    take32? (bytes32 w ++ rest) = some (w, rest) := by
  simp [bytes32, take32?]

@[simp]
theorem take64?_bytes64_append (w : UInt64) (rest : List UInt8) :
    take64? (bytes64 w ++ rest) = some (w, rest) := by
  simp [bytes64, take64?]

end InlineCache.Word
