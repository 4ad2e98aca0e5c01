import InlineCache.Proofs.Value.Boxing

/-!
# Integers of 32 bits

A program means integers where compiled code has halves of words. An integer is an `int32` exactly
if it survives being cut to 32 bits, which is what the overflow flag says of a sum, and what the
sign says of a length.
-/

namespace InlineCache

theorem isInt32_eq (i : Int) :
    (decide (-0x80000000 ≤ i) && decide (i < 0x80000000)) = decide ((Int32.ofInt i).toInt = i) := by
  rw [← Bool.decide_and]
  refine decide_eq_decide.mpr ⟨fun h => Int32.toInt_ofInt_of_le h.1 h.2, fun h => ?_⟩
  have h₁ := (Int32.ofInt i).le_toInt
  have h₂ := (Int32.ofInt i).toInt_lt
  omega

theorem toInt_toInt32 (n : UInt32) : n.toInt32.toInt =
    if n.toNat < 2 ^ 31 then (n.toNat : Int) else (n.toNat : Int) - 0x100000000 := by
  have h : n.toInt32.toInt = n.toBitVec.toInt := rfl
  rw [h, BitVec.toInt_eq_toNat_cond]
  show (if 2 * n.toNat < 2 ^ 32 then (n.toNat : Int) else n.toNat - 2 ^ 32) = _
  split <;> split <;> omega

/-- A length is an `int32` if its sign is clear. -/
theorem isInt32_toNat (n : UInt32) : (!decide (n.toInt32 < 0)) =
    (decide (-0x80000000 ≤ (n.toNat : Int)) && decide ((n.toNat : Int) < 0x80000000)) := by
  have h : n.toInt32 < 0 ↔ ¬ n.toNat < 2 ^ 31 := by
    have := n.toNat_lt
    rw [Int32.lt_iff_toInt_lt, toInt_toInt32, Int32.toInt_zero]
    split <;> omega
  rw [← Bool.decide_and, ← decide_not]
  refine decide_eq_decide.mpr ?_
  rw [h]
  omega

theorem ofInt_toNat (n : UInt32) : Int32.ofInt n.toNat = n.toInt32 := by
  have := n.toNat_lt
  rw [← Int32.toInt_inj, toInt_toInt32, Int32.toInt_ofInt]
  split <;> simp [Int.bmod] <;> omega

theorem ValueType.box_int32 (i : UInt32) :
    ValueType.int32.box i.toUInt64 = (Value.ofInt32 i.toInt32).bits := by
  rw [box, if_neg (by decide), UInt64.or_comm, UInt32.toUInt32_toUInt64]
  rfl

theorem ValueType.toUInt32_unbox_int32 (w : UInt64) :
    (ValueType.int32.unbox w).toUInt32 = w.toUInt32 := by
  rw [unbox, if_neg (by decide), UInt32.toUInt32_toUInt64]

end InlineCache
