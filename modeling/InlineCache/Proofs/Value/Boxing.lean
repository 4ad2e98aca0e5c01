import InlineCache.Value.Basic
import Mathlib.Algebra.Group.Nat.Defs

/-!
# Boxing and unboxing words

Compiled code unboxes a word without looking at its tag, and boxes a payload without looking at
its upper bits. `ValueType.unbox` and `ValueType.box` are these two functions on words. They undo
each other on the words and payloads that belong to the type, and only there.
-/

namespace InlineCache.ValueType

/-- Types whose payload can stand by itself. -/
def isBoxable (t : ValueType) : Bool :=
  t.isPointer || t == .int32 || t == .boolean

/-- The payload of type `t` is this many low bits of a word. -/
def payloadBits (t : ValueType) : Nat :=
  if t.isPointer then 47 else 32

/-- The payload of a word that is taken to be of type `t`: pointers lose their tag, integers and
booleans are the low half. -/
def unbox (t : ValueType) (w : UInt64) : UInt64 :=
  if t.isPointer then (w <<< 17) >>> 17 else w.toUInt32.toUInt64

/-- The word with the tag of `t` over a payload. -/
def box (t : ValueType) (w : UInt64) : UInt64 :=
  (if t.isPointer then w else w.toUInt32.toUInt64) ||| t.shiftedTag

end InlineCache.ValueType

namespace InlineCache.Value

/-! ## Tag and payload as numbers -/

theorem toNat_tag (v : Value) : v.tag.toNat = v.bits.toNat / 2 ^ 47 := by
  simp [tag, ValueType.tagShift, UInt64.toNat_shiftRight, Nat.shiftRight_eq_div_pow]

theorem toNat_payload (v : Value) : v.payload.toNat = v.bits.toNat % 2 ^ 47 := by
  have h : v.payload.toNat = v.bits.toNat &&& (2 ^ 47 - 1) := by
    simp [payload, payloadMask, UInt64.toNat_and]
  rw [h, Nat.and_two_pow_sub_one_eq_mod]

/-! ## Tags and types -/

/-- The tags above those of doubles. -/
def tagsAboveDoubles : List UInt64 :=
  [0x1FFF1, 0x1FFF2, 0x1FFF3, 0x1FFF4, 0x1FFF5, 0x1FFF6, 0x1FFF7, 0x1FFF8, 0x1FFF9, 0x1FFFA,
    0x1FFFB, 0x1FFFC, 0x1FFFD, 0x1FFFE, 0x1FFFF]

theorem tag_le_or_mem (v : Value) :
    v.tag ≤ ValueType.maxDoubleTag ∨ v.tag ∈ tagsAboveDoubles := by
  have h := v.toNat_tag
  have hlt := v.bits.toNat_lt
  simp only [tagsAboveDoubles, List.mem_cons, ← UInt64.toNat_inj, UInt64.le_iff_toNat_le,
    List.not_mem_nil, or_false]
  simp only [ValueType.maxDoubleTag, UInt64.reduceToNat]
  omega

/-- The type that a tag says. -/
def typeOfTag (tag : UInt64) : ValueType :=
  if tag ≤ ValueType.maxDoubleTag then .double
  else (ValueType.ofTagBits? (tag &&& ~~~ValueType.maxDoubleTag)).getD .magic

theorem type_eq (v : Value) : v.type = typeOfTag v.tag := by
  simp only [type, typeOfTag, isDouble, decide_eq_true_eq]

/-- Guards on the tag and on the type agree. -/
theorem hasTag_eq {t : ValueType} (ht : t.isPointer = true ∨ t = .int32) (v : Value) :
    v.hasTag t = (v.type == t) := by
  have habove : tagsAboveDoubles.all fun tag => (tag == t.tag) == (typeOfTag tag == t) := by
    cases t <;> first | decide | (obtain ht | ht := ht <;> cases ht)
  rw [hasTag, type_eq]
  obtain h | h := v.tag_le_or_mem
  · have hne : v.tag ≠ t.tag := fun he => by
      rw [he] at h
      revert h
      cases t <;> first | decide | (obtain ht | ht := ht <;> cases ht)
    have hdouble : ValueType.double ≠ t := fun he => by
      rw [← he] at ht
      obtain ht | ht := ht <;> cases ht
    rw [typeOfTag, if_pos h, beq_false_of_ne hne, beq_false_of_ne hdouble]
  · exact beq_iff_eq.mp (List.all_eq_true.mp habove _ h)

theorem isNumber_eq (v : Value) : v.isNumber = (v.type == .int32 || v.type == .double) := by
  have habove : tagsAboveDoubles.all fun tag => decide (tag ≤ ValueType.int32.tag) ==
      (typeOfTag tag == .int32 || typeOfTag tag == .double) := by decide
  rw [isNumber, type_eq]
  obtain h | h := v.tag_le_or_mem
  · have hle : v.tag ≤ ValueType.int32.tag :=
      UInt64.le_trans h (by decide)
    rw [typeOfTag, if_pos h, decide_eq_true hle]
    rfl
  · exact beq_iff_eq.mp (List.all_eq_true.mp habove _ h)

theorem isDouble_eq (v : Value) : v.isDouble = (v.type == .double) := by
  have habove : tagsAboveDoubles.all fun tag => typeOfTag tag != .double := by decide
  rw [isDouble, type_eq]
  obtain h | h := v.tag_le_or_mem
  · rw [typeOfTag, if_pos h, decide_eq_true h]
    rfl
  · have hne := List.all_eq_true.mp habove _ h
    rw [bne_iff_ne] at hne
    rw [beq_false_of_ne hne, decide_eq_false_iff_not]
    intro hle
    rw [typeOfTag, if_pos hle] at hne
    exact hne rfl

/-! ## Doubles -/

/-- The words above those of doubles are bit patterns of negative NaNs. -/
theorem isNaNBits_of_tag {bits : UInt64}
    (h : ¬ (⟨bits⟩ : Value).tag ≤ ValueType.maxDoubleTag) : isNaNBits bits = true := by
  have hlt := bits.toNat_lt
  rw [UInt64.le_iff_toNat_le, toNat_tag] at h
  change ¬ bits.toNat / 2 ^ 47 ≤ 0x1FFF0 at h
  have hfraction : (bits &&& 0xFFFFFFFFFFFFF).toNat = bits.toNat % 2 ^ 52 := by
    have hand : (bits &&& 0xFFFFFFFFFFFFF).toNat = bits.toNat &&& (2 ^ 52 - 1) := by
      simp [UInt64.toNat_and]
    rw [hand, Nat.and_two_pow_sub_one_eq_mod]
  -- Sign and exponent are all ones.
  have hsplit : bits = 0xFFF0000000000000 ||| (bits &&& 0xFFFFFFFFFFFFF) := by
    apply UInt64.toNat_inj.mp
    rw [UInt64.toNat_or, hfraction]
    change bits.toNat = 2 ^ 52 * 0xFFF ||| bits.toNat % 2 ^ 52
    rw [← Nat.two_pow_add_eq_or_of_lt (Nat.mod_lt _ (by decide))]
    omega
  have hexponent : bits &&& 0x7FF0000000000000 = 0x7FF0000000000000 := by
    apply UInt64.toNat_inj.mp
    rw [hsplit, UInt64.toNat_and, UInt64.toNat_or, Nat.and_or_distrib_right,
      ← UInt64.toNat_and (_ &&& _), UInt64.and_assoc]
    simp
  have hnonzero : bits &&& 0xFFFFFFFFFFFFF ≠ 0 := by
    intro hzero
    rw [← UInt64.toNat_inj, hfraction] at hzero
    change bits.toNat % 2 ^ 52 = 0 at hzero
    omega
  rw [isNaNBits, hexponent, bne_iff_ne.mpr hnonzero]
  rfl

/-- A double is never mistaken for a tagged value. -/
theorem type_ofDoubleBits (bits : UInt64) : (ofDoubleBits bits).type = .double := by
  rw [← beq_iff_eq, ← isDouble_eq, ofDoubleBits]
  split
  · decide
  · next hnan =>
      refine decide_eq_true (Classical.byContradiction fun htag => hnan ?_)
      exact isNaNBits_of_tag htag

/-! ## Boxing and unboxing undo each other -/

theorem toNat_shiftedTag (t : ValueType) : t.shiftedTag.toNat = 2 ^ 47 * t.tag.toNat := by
  cases t <;> decide

theorem toNat_or_shiftedTag (t : ValueType) {w : UInt64} (h : w.toNat < 2 ^ 47) :
    (t.shiftedTag ||| w).toNat = 2 ^ 47 * t.tag.toNat + w.toNat := by
  rw [UInt64.toNat_or, toNat_shiftedTag, Nat.two_pow_add_eq_or_of_lt h]

/-- A word with a tag is that tag over its payload. -/
theorem toNat_bits {v : Value} {t : ValueType} (h : v.tag = t.tag) :
    v.bits.toNat = 2 ^ 47 * t.tag.toNat + v.payload.toNat := by
  rw [← h, toNat_tag, toNat_payload]
  omega

theorem payload_boxed {t : ValueType} {w : UInt64} (h : w.toNat < 2 ^ 47) :
    (boxed t w).payload = w := by
  apply UInt64.toNat_inj.mp
  rw [toNat_payload, boxed, toNat_or_shiftedTag t h]
  omega

theorem tag_boxed {t : ValueType} {w : UInt64} (h : w.toNat < 2 ^ 47) :
    (boxed t w).tag = t.tag := by
  apply UInt64.toNat_inj.mp
  rw [toNat_tag, boxed, toNat_or_shiftedTag t h]
  omega

theorem type_boxed {t : ValueType} {w : UInt64} (h : w.toNat < 2 ^ 47) :
    (boxed t w).type = t := by
  rw [type_eq, tag_boxed h]
  cases t <;> decide

theorem type_ofInt32 (i : Int32) : (ofInt32 i).type = .int32 := by
  have := i.toUInt32.toNat_lt
  refine type_boxed ?_
  rw [UInt32.toNat_toUInt64]
  omega

/-- An `int32` has nothing between its tag and its low half. -/
def Canonical (v : Value) : Prop :=
  v.type = .int32 → v.payload < 0x100000000

instance (v : Value) : Decidable v.Canonical :=
  inferInstanceAs (Decidable (_ → _))

/-- `v` is of type `t`, and the payload that is unboxed at this type is all that it has below its
tag. -/
def Unboxes (v : Value) (t : ValueType) : Prop :=
  v.type = t ∧ (t = .int32 ∨ t = .boolean → v.payload < 0x100000000)

instance (v : Value) (t : ValueType) : Decidable (v.Unboxes t) :=
  inferInstanceAs (Decidable (_ ∧ (_ → _)))

theorem tag_of_type {t : ValueType} (ht : t.isBoxable = true) {v : Value} (h : v.type = t) :
    v.tag = t.tag := by
  have habove : tagsAboveDoubles.all fun tag => typeOfTag tag != t || tag == t.tag := by
    cases t <;> first | decide | cases ht
  rw [type_eq] at h
  obtain hle | hmem := v.tag_le_or_mem
  · rw [typeOfTag, if_pos hle] at h
    rw [← h] at ht
    cases ht
  · have hone := List.all_eq_true.mp habove _ hmem
    simpa [h] using hone

end InlineCache.Value

namespace InlineCache.ValueType

open Value

theorem isBoxable_of_isPointer_or {t : ValueType} (ht : t.isPointer = true ∨ t = .int32) :
    t.isBoxable = true := by
  obtain ht | rfl := ht
  · rw [isBoxable, ht]
    rfl
  · rfl

theorem eq_of_not_isPointer {t : ValueType} (ht : t.isBoxable = true)
    (hptr : t.isPointer = false) : t = .int32 ∨ t = .boolean := by
  simpa [isBoxable, hptr] using ht

theorem payloadBits_le (t : ValueType) : t.payloadBits ≤ 47 := by
  rw [payloadBits]
  split <;> decide

/-! ## Unboxing cuts -/

theorem toNat_unbox (t : ValueType) (w : UInt64) :
    (t.unbox w).toNat = w.toNat % 2 ^ t.payloadBits := by
  rw [unbox, payloadBits]
  split
  · have hlt := w.toNat_lt
    rw [UInt64.toNat_shiftRight, UInt64.toNat_shiftLeft, Nat.shiftRight_eq_div_pow,
      Nat.shiftLeft_eq]
    change w.toNat * 2 ^ 17 % 2 ^ 64 / 2 ^ 17 = _
    omega
  · rw [UInt32.toNat_toUInt64, UInt64.toNat_toUInt32]

theorem unbox_lt (t : ValueType) (w : UInt64) : (t.unbox w).toNat < 2 ^ t.payloadBits := by
  rw [toNat_unbox]
  exact Nat.mod_lt _ (Nat.two_pow_pos _)

/-- Unboxing sees only what is below the tag. -/
theorem toNat_unbox_bits (t : ValueType) (v : Value) :
    (t.unbox v.bits).toNat = v.payload.toNat % 2 ^ t.payloadBits := by
  rw [toNat_unbox, toNat_payload, Nat.mod_mod_of_dvd _ (Nat.pow_dvd_pow 2 t.payloadBits_le)]

theorem unbox_of_isPointer {t : ValueType} (ht : t.isPointer = true) (v : Value) :
    t.unbox v.bits = v.payload := by
  apply UInt64.toNat_inj.mp
  rw [toNat_unbox, toNat_payload, payloadBits, if_pos ht]

theorem unbox_of_not_isPointer {t : ValueType} (ht : t.isPointer = false) (v : Value) :
    t.unbox v.bits = v.payload &&& 0xFFFFFFFF := by
  have hmask : (v.payload &&& 0xFFFFFFFF).toNat = v.payload.toNat &&& (2 ^ 32 - 1) := by
    simp [UInt64.toNat_and]
  apply UInt64.toNat_inj.mp
  rw [toNat_unbox_bits, payloadBits, if_neg (by simp [ht]), hmask, Nat.and_two_pow_sub_one_eq_mod]

/-- Only pointers are unboxed to more than the low half. -/
theorem payload_lt_of_unboxes {t : ValueType} (ht : t.isBoxable = true) {v : Value}
    (h : v.Unboxes t) : v.payload.toNat < 2 ^ t.payloadBits := by
  rw [payloadBits]
  split
  · rw [toNat_payload]
    exact Nat.mod_lt _ (by decide)
  · next hptr =>
      exact UInt64.lt_iff_toNat_lt.mp (h.2 (eq_of_not_isPointer ht ((Bool.not_eq_true _).mp hptr)))

theorem unbox_bits {t : ValueType} (ht : t.isBoxable = true) {v : Value} (h : v.Unboxes t) :
    t.unbox v.bits = v.payload := by
  apply UInt64.toNat_inj.mp
  rw [toNat_unbox_bits, Nat.mod_eq_of_lt (payload_lt_of_unboxes ht h)]

/-! ## Boxing stamps -/

theorem lt_of_payloadBits {t : ValueType} {w : UInt64} (h : w.toNat < 2 ^ t.payloadBits) :
    w.toNat < 2 ^ 47 :=
  Nat.lt_of_lt_of_le h (Nat.pow_le_pow_right (by decide) t.payloadBits_le)

/-- Of a payload in range, boxing loses nothing. -/
theorem box_eq_boxed {t : ValueType} {w : UInt64} (h : w.toNat < 2 ^ t.payloadBits) :
    t.box w = (boxed t w).bits := by
  have hkept : (if t.isPointer then w else w.toUInt32.toUInt64) = w := by
    rw [payloadBits] at h
    split
    · rfl
    · next hptr =>
        rw [if_neg hptr] at h
        apply UInt64.toNat_inj.mp
        rw [UInt32.toNat_toUInt64, UInt64.toNat_toUInt32, Nat.mod_eq_of_lt h]
  rw [box, hkept, UInt64.or_comm]
  rfl

theorem unboxes_boxed {t : ValueType} {w : UInt64} (h : w.toNat < 2 ^ t.payloadBits) :
    (boxed t w).Unboxes t := by
  have h47 := lt_of_payloadBits h
  refine ⟨type_boxed h47, fun hnarrow => ?_⟩
  rw [payload_boxed h47, UInt64.lt_iff_toNat_lt]
  obtain rfl | rfl := hnarrow <;> exact h

theorem box_payload {t : ValueType} (ht : t.isBoxable = true) {v : Value} (h : v.Unboxes t) :
    t.box v.payload = v.bits := by
  have hlt := payload_lt_of_unboxes ht h
  apply UInt64.toNat_inj.mp
  rw [box_eq_boxed hlt, boxed, toNat_or_shiftedTag t (lt_of_payloadBits hlt),
    toNat_bits (tag_of_type ht h.1)]

/-- The stamp has nothing in the bits that unboxing keeps. -/
theorem unbox_box (t : ValueType) (w : UInt64) : t.unbox (t.box w) = t.unbox w := by
  rw [unbox, unbox, box]
  split
  · have hstamp : t.shiftedTag <<< 17 = 0 := by cases t <;> decide
    rw [UInt64.shiftLeft_or, hstamp, UInt64.or_zero]
  · have hstamp : t.shiftedTag.toUInt32 = 0 := by cases t <;> decide
    rw [UInt64.toUInt32_or, hstamp, UInt32.or_zero, UInt32.toUInt32_toUInt64]

/-! ## Round trips -/

/-- A word comes back exactly if it has the type and nothing between its tag and the bits that are
unboxed. -/
theorem box_unbox_eq_iff {t : ValueType} (ht : t.isBoxable = true) (v : Value) :
    t.box (t.unbox v.bits) = v.bits ↔ v.Unboxes t := by
  have hlt := t.unbox_lt v.bits
  constructor
  · intro h
    have hv : boxed t (t.unbox v.bits) = v := by
      rw [box_eq_boxed hlt] at h
      exact congrArg Value.mk h
    rw [← hv]
    exact unboxes_boxed hlt
  · intro h
    rw [unbox_bits ht h, box_payload ht h]

/-- A payload comes back exactly if it is in range. -/
theorem unbox_box_eq_iff (t : ValueType) (w : UInt64) :
    t.unbox (t.box w) = w ↔ w.toNat < 2 ^ t.payloadBits := by
  rw [unbox_box, ← UInt64.toNat_inj, toNat_unbox]
  exact ⟨fun h => h ▸ Nat.mod_lt _ (Nat.two_pow_pos _), Nat.mod_eq_of_lt⟩

/-- A word that has the type is unboxed and boxed again without a change. -/
theorem box_unbox {t : ValueType} (ht : t.isPointer = true ∨ t = .int32) {v : Value}
    (h : v.type = t) (hc : v.Canonical) : t.box (t.unbox v.bits) = v.bits := by
  have hv : v.Unboxes t := by
    refine ⟨h, fun hnarrow => ?_⟩
    obtain rfl | rfl := hnarrow
    · exact hc h
    · obtain ht | ht := ht <;> cases ht
  exact (box_unbox_eq_iff (isBoxable_of_isPointer_or ht) v).mpr hv

end InlineCache.ValueType
