import InlineCache.Word.Memory
import Mathlib.Algebra.Group.Nat.Defs

/-!
# Regions of memory

A stub keeps what it pushes in the bytes below the stack pointer it was entered with. Everything
else it reads lies elsewhere, and a read there sees what was there when the stub was entered. This
file says what the two facts come to for words: a word pushed on the stack changes no slot above
it and nothing outside the stack, and a word read outside the stack is the same in two memories
that differ in the stack only.

A slot is named by its distance from the top, as the places of operands are. All arithmetic on
addresses wraps around, so nothing is assumed of where the stack lies.
-/

namespace InlineCache

/-- Some bytes of memory, from an address on. -/
structure Span where
  start : UInt64
  size : Nat
deriving DecidableEq

/-- The bytes at an offset from an address. -/
def Span.ofOffset (a : UInt64) (offset : Int32) (size : Nat) : Span :=
  ⟨a + offset.toInt64.toUInt64, size⟩

/-- Whether none of the bytes lies in an area. -/
def Span.avoids (s : Span) (area : UInt64 → Bool) : Bool :=
  (List.range s.size).all fun k => !area (s.start + k.toUInt64)

theorem Span.avoids_iff {s : Span} {area : UInt64 → Bool} :
    s.avoids area = true ↔ ∀ k < s.size, area (s.start + k.toUInt64) = false := by
  simp [avoids]

theorem Span.avoids_mono {s : Span} {area area' : UInt64 → Bool}
    (h : ∀ x, area' x = true → area x = true) (hs : s.avoids area = true) :
    s.avoids area' = true := by
  refine avoids_iff.mpr fun k hk => ?_
  have hout := avoids_iff.mp hs k hk
  cases hin : area' (s.start + k.toUInt64) with
  | false => rfl
  | true => exact (h _ hin).symm.trans hout

namespace Memory

/-! ## Words -/

theorem read64_congr {m m' : Memory} {a : UInt64}
    (h : ∀ k : Nat, k < 8 → m (a + k.toUInt64) = m' (a + k.toUInt64)) :
    m.read64 a = m'.read64 a := by
  have h0 : m a = m' a := by simpa using h 0 (by omega)
  have h1 : m (a + 1) = m' (a + 1) := h 1 (by omega)
  have h2 : m (a + 2) = m' (a + 2) := h 2 (by omega)
  have h3 : m (a + 3) = m' (a + 3) := h 3 (by omega)
  have h4 : m (a + 4) = m' (a + 4) := h 4 (by omega)
  have h5 : m (a + 5) = m' (a + 5) := h 5 (by omega)
  have h6 : m (a + 6) = m' (a + 6) := h 6 (by omega)
  have h7 : m (a + 7) = m' (a + 7) := h 7 (by omega)
  rw [read64, read64, h0, h1, h2, h3, h4, h5, h6, h7]

theorem read32_congr {m m' : Memory} {a : UInt64}
    (h : ∀ k : Nat, k < 4 → m (a + k.toUInt64) = m' (a + k.toUInt64)) :
    m.read32 a = m'.read32 a := by
  have h0 : m a = m' a := by simpa using h 0 (by omega)
  have h1 : m (a + 1) = m' (a + 1) := h 1 (by omega)
  have h2 : m (a + 2) = m' (a + 2) := h 2 (by omega)
  have h3 : m (a + 3) = m' (a + 3) := h 3 (by omega)
  rw [read32, read32, h0, h1, h2, h3]

/-- Two memories that agree outside an area give the same word outside it. -/
theorem read64_of_avoids {m m' : Memory} {area : UInt64 → Bool} {a : UInt64}
    (h : ∀ x, area x = false → m x = m' x) (ha : (Span.mk a 8).avoids area = true) :
    m.read64 a = m'.read64 a :=
  read64_congr fun k hk => h _ (Span.avoids_iff.mp ha k hk)

theorem read32_of_avoids {m m' : Memory} {area : UInt64 → Bool} {a : UInt64}
    (h : ∀ x, area x = false → m x = m' x) (ha : (Span.mk a 4).avoids area = true) :
    m.read32 a = m'.read32 a :=
  read32_congr fun k hk => h _ (Span.avoids_iff.mp ha k hk)

theorem write64_of_le {m : Memory} {a w x : UInt64} (h : 8 ≤ x - a) : m.write64 a w x = m x := by
  have hlt : ¬ x - a < 8 := by
    rw [UInt64.lt_iff_toNat_lt]
    rw [UInt64.le_iff_toNat_le] at h
    omega
  simp only [write64, if_neg hlt]

/-! ## The stack -/

/-- Whether an address is one of the `n` below `top`. -/
def below (top : UInt64) (n : Nat) (x : UInt64) : Bool :=
  decide ((top - 1 - x).toNat < n)

theorem below_mono {top : UInt64} {n k : Nat} (hk : n ≤ k) {x : UInt64}
    (h : below top k x = false) : below top n x = false := by
  simp only [below, decide_eq_false_iff_not, Nat.not_lt] at h ⊢
  omega

theorem below_of_le {top : UInt64} {n k : Nat} (hk : n ≤ k) {x : UInt64}
    (h : below top n x = true) : below top k x = true := by
  simp only [below, decide_eq_true_eq] at h ⊢
  omega

/-- The address of a stack slot, by its distance from the top. -/
def slot (top : UInt64) (offset : Nat) : UInt64 :=
  top - offset.toUInt64

theorem toUInt64_add (a b : Nat) : (a + b).toUInt64 = a.toUInt64 + b.toUInt64 :=
  UInt64.ofNat_add a b

@[simp]
theorem slot_zero (top : UInt64) : slot top 0 = top := by
  simp [slot]

theorem slot_sub_eight (top : UInt64) (d : Nat) : slot top d - 8 = slot top (d + 8) := by
  rw [slot, slot, toUInt64_add]
  show top - d.toUInt64 - 8 = top - (d.toUInt64 + 8)
  grind

theorem slot_add (top : UInt64) {d k : Nat} (h : k ≤ d) :
    slot top d + k.toUInt64 = slot top (d - k) := by
  obtain ⟨e, rfl⟩ : ∃ e, d = e + k := ⟨d - k, by omega⟩
  rw [slot, slot, Nat.add_sub_cancel, toUInt64_add]
  grind

theorem slot_add_eight (top : UInt64) {d : Nat} (h : 8 ≤ d) :
    slot top d + 8 = slot top (d - 8) :=
  slot_add top h

/-- How far an address lies above a slot further down. -/
theorem slot_add_sub_slot (top : UInt64) {o d k : Nat} (h : o ≤ d) :
    slot top o + k.toUInt64 - slot top d = (d - o + k).toUInt64 := by
  obtain ⟨e, rfl⟩ : ∃ e, d = e + o := ⟨d - o, by omega⟩
  rw [slot, slot, Nat.add_sub_cancel, toUInt64_add, toUInt64_add]
  grind

theorem toNat_sub_slot {top : UInt64} {d : Nat} (h : d < 2 ^ 64) :
    (top - slot top d).toNat = d := by
  have hsub : top - slot top d = d.toUInt64 := by
    rw [slot]
    grind
  rw [hsub]
  exact Nat.mod_eq_of_lt h

/-- A slot lies in the part of the stack that is as deep as it. -/
theorem below_slot_add {top : UInt64} {o d k : Nat} (hk : k < o) (ho : o ≤ d) (hd : d < 2 ^ 64) :
    below top d (slot top o + k.toUInt64) = true := by
  obtain ⟨n, hn⟩ : ∃ n, o - k = n + 1 := ⟨o - k - 1, by omega⟩
  have hdistance : top - 1 - slot top (n + 1) = n.toUInt64 := by
    rw [slot, toUInt64_add]
    show top - 1 - (top - (n.toUInt64 + 1)) = n.toUInt64
    grind
  rw [slot_add top (Nat.le_of_lt hk), hn, below, hdistance, decide_eq_true_eq]
  show (UInt64.ofNat n).toNat < d
  rw [UInt64.toNat_ofNat', Nat.mod_eq_of_lt (by omega)]
  omega

/-- Two memories that agree in the part of the stack that is in use have the same slots there. -/
theorem read64_slot_congr {m m' : Memory} {top : UInt64} {o d : Nat}
    (h : ∀ {x}, below top d x = true → m' x = m x) (h8 : 8 ≤ o) (ho : o ≤ d) (hd : d < 2 ^ 64) :
    m'.read64 (slot top o) = m.read64 (slot top o) :=
  read64_congr fun _ hk => h (below_slot_add (Nat.lt_of_lt_of_le hk h8) ho hd)

/-- A push leaves the slots above it alone. -/
theorem read64_write64_slot {m : Memory} {top w : UInt64} {o d : Nat} (ho : o ≤ d)
    (hd : d + 16 < 2 ^ 64) :
    (m.write64 (slot top (d + 8)) w).read64 (slot top o) = m.read64 (slot top o) := by
  refine read64_congr fun k hk => write64_of_le ?_
  rw [slot_add_sub_slot top (by omega), UInt64.le_iff_toNat_le]
  show 8 ≤ (UInt64.ofNat (d + 8 - o + k)).toNat
  rw [UInt64.toNat_ofNat', Nat.mod_eq_of_lt (by omega)]
  omega

/-- A push changes nothing but the eight bytes below the stack pointer. -/
theorem write64_slot_of_apart {m : Memory} {top w x : UInt64} {d : Nat} (hd : d + 8 < 2 ^ 64)
    (hx : below top d x = true ∨ below top (d + 8) x = false) :
    m.write64 (slot top (d + 8)) w x = m x := by
  refine write64_of_le ?_
  simp only [below, decide_eq_true_eq, decide_eq_false_iff_not, Nat.not_lt] at hx
  have hsum : x - slot top (d + 8) = (d + 7).toUInt64 - (top - 1 - x) := by
    have h8 : (d + 8).toUInt64 = (d + 7).toUInt64 + 1 := toUInt64_add (d + 7) 1
    rw [slot, h8]
    grind
  have h7 : (d + 7).toUInt64.toNat = d + 7 := by
    show (UInt64.ofNat (d + 7)).toNat = d + 7
    rw [UInt64.toNat_ofNat', Nat.mod_eq_of_lt (by omega)]
  have hlt := (top - 1 - x).toNat_lt
  rw [UInt64.le_iff_toNat_le, hsum, UInt64.toNat_sub, h7]
  show 8 ≤ _
  omega

end Memory

/-! ## Displacements -/

/-- A number of bytes below 2 GiB as the displacement of an instruction. -/
theorem disp_toUInt64 {n : Nat} (h : n < 2 ^ 31) :
    n.toUInt32.toInt32.toInt64.toUInt64 = n.toUInt64 := by
  have hmax : (n : Int) ≤ Int32.maxValue.toInt := by
    rw [Int32.toInt_maxValue]
    omega
  show ((Int32.ofNat n).toInt64).toUInt64 = UInt64.ofNat n
  rw [Int32.toInt64_ofNat' hmax, Int64.toUInt64_ofNat']

namespace Memory

/-- Where `[rsp + disp]` points when it names a slot. -/
theorem slot_add_disp (top : UInt64) {o d : Nat} (ho : o ≤ d) (hd : d < 2 ^ 31) :
    slot top d + (d - o).toUInt32.toInt32.toInt64.toUInt64 = slot top o := by
  rw [disp_toUInt64 (by omega), slot_add top (by omega)]
  congr 1
  omega

end Memory
end InlineCache
