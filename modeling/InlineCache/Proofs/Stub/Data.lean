import InlineCache.Codegen.Compile
import InlineCache.Proofs.Word.Region
import InlineCache.Stub.Data

/-!
# Fields in stub data

Every field takes one word, so the fields of a program stand eight bytes apart. Compiled code finds
a field at its displacement from the stub (`read64_displacement`).
-/

namespace InlineCache

/-! ## Bytes in memory -/

/-- The bytes stand in memory from an address on. -/
def Memory.Holds (m : Memory) (a : UInt64) (bs : List UInt8) : Prop :=
  ∀ (k : Nat) (b : UInt8), bs[k]? = some b → m (a + k.toUInt64) = b

instance (m : Memory) (a : UInt64) (bs : List UInt8) : Decidable (m.Holds a bs) :=
  decidable_of_iff (∀ k : Fin bs.length, m (a + k.val.toUInt64) = bs.get k)
    ⟨fun h k b hk => by
      obtain ⟨hlt, rfl⟩ := List.getElem?_eq_some_iff.mp hk
      exact h ⟨k, hlt⟩,
    fun h k => h k _ (List.getElem?_eq_getElem k.isLt)⟩

namespace Memory.Holds

variable {m : Memory} {a : UInt64} {bs bs' : List UInt8}

theorem of_append_left (h : m.Holds a (bs ++ bs')) : m.Holds a bs := by
  intro k b hk
  have hlt := (List.getElem?_eq_some_iff.mp hk).1
  exact h k b (by rw [List.getElem?_append_left hlt, hk])

theorem drop (h : m.Holds a bs) (n : Nat) : m.Holds (a + n.toUInt64) (bs.drop n) := by
  intro k b hk
  rw [List.getElem?_drop] at hk
  rw [UInt64.add_assoc, ← Memory.toUInt64_add]
  exact h _ b hk

theorem read64 {w : UInt64} (h : m.Holds a (Word.bytes64 w)) : m.read64 a = w := by
  have h0 : m a = w.toUInt8 := by simpa using h 0 _ rfl
  have h1 : m (a + 1) = (w >>> 8).toUInt8 := h 1 _ rfl
  have h2 : m (a + 2) = (w >>> 16).toUInt8 := h 2 _ rfl
  have h3 : m (a + 3) = (w >>> 24).toUInt8 := h 3 _ rfl
  have h4 : m (a + 4) = (w >>> 32).toUInt8 := h 4 _ rfl
  have h5 : m (a + 5) = (w >>> 40).toUInt8 := h 5 _ rfl
  have h6 : m (a + 6) = (w >>> 48).toUInt8 := h 6 _ rfl
  have h7 : m (a + 7) = (w >>> 56).toUInt8 := h 7 _ rfl
  rw [Memory.read64, h0, h1, h2, h3, h4, h5, h6, h7, Word.ofBytes64_shifts]

end Memory.Holds

/-! ## Where fields are -/

namespace Field

/-- The words of fields one after the other. -/
def serialize (fs : List Field) : List UInt8 :=
  fs.flatMap fun f => Word.bytes64 f.word

@[simp]
theorem serialize_nil : serialize [] = [] := rfl

@[simp]
theorem serialize_cons (f : Field) (fs : List Field) :
    serialize (f :: fs) = Word.bytes64 f.word ++ serialize fs := rfl

@[simp]
theorem length_serialize (fs : List Field) : (serialize fs).length = 8 * fs.length := by
  induction fs with
  | nil => rfl
  | cons f fs ih =>
      rw [serialize_cons, List.length_append, ih, Word.length_bytes64, List.length_cons]
      omega

theorem drop_serialize {fs : List Field} {index : Nat} {f : Field} (h : fs[index]? = some f) :
    (serialize fs).drop (8 * index) =
      Word.bytes64 f.word ++ (serialize fs).drop (8 * (index + 1)) := by
  induction fs generalizing index with
  | nil => cases h
  | cons g fs ih =>
      have hskip : ∀ n, (serialize (g :: fs)).drop (8 + n) = (serialize fs).drop n := fun n => by
        rw [serialize_cons, ← List.drop_drop, List.drop_left' (Word.length_bytes64 g.word)]
      obtain _ | index := index
      · cases h
        rw [hskip 0]
        rfl
      · have hnext := @ih index h
        rw [show 8 * (index + 1) = 8 + 8 * index by omega, hskip,
          show 8 * (index + 1 + 1) = 8 + 8 * (index + 1) by omega, hskip]
        exact hnext

end Field

theorem Program.drop_dataBytes {p : Program} {index : Nat} {f : Field}
    (h : p.fields[index]? = some f) :
    p.dataBytes.drop (8 * index) = Word.bytes64 f.word ++ p.dataBytes.drop (8 * (index + 1)) :=
  Field.drop_serialize (by rw [Array.getElem?_toList]; exact h)

namespace Compile

theorem getElem?_displacements {fs : List Field} {index : Nat} (h : index < fs.length)
    (start : Nat) : (displacements start fs)[index]? = some (start + 8 * index) := by
  induction fs generalizing index start with
  | nil => cases h
  | cons f fs ih =>
      obtain _ | index := index
      · rfl
      · have hnext := @ih index (by simpa using h) (start + 8)
        rw [show start + 8 * (index + 1) = start + 8 + 8 * index by omega]
        exact hnext

theorem displacement_eq {p : Program} {index : Nat} (h : index < p.fields.size) :
    displacement p index = (Layout.stubData + 8 * index).toUInt32.toInt32 := by
  have hlt : index < p.fields.toList.length := by rwa [Array.length_toList]
  show Int32.ofNat _ = Int32.ofNat _
  rw [Array.getD_eq_getD_getElem?, List.getElem?_toArray, getElem?_displacements hlt]
  rfl

/-- Instructions name fields by a byte, so that displacements are small. -/
theorem displacement_toUInt64 {p : Program} {index : Nat} (h : index < p.fields.size)
    (hbyte : index < 256) :
    (displacement p index).toInt64.toUInt64 =
      Layout.stubData.toUInt64 + (8 * index).toUInt64 := by
  have hsmall : Layout.stubData + 8 * index < 2 ^ 31 := by
    rw [Layout.stubData]
    omega
  rw [displacement_eq h, disp_toUInt64 hsmall, Memory.toUInt64_add]

/-- A field is found at its displacement. -/
theorem read64_displacement {p : Program} {index : Nat} {f : Field} (hf : p.fields[index]? = some f)
    (hbyte : index < 256) {m : Memory} {stub : UInt64}
    (hdata : m.Holds (stub + Layout.stubData.toUInt64) p.dataBytes) :
    m.read64 (stub + (displacement p index).toInt64.toUInt64) = f.word := by
  have hlt := (Array.getElem?_eq_some_iff.mp hf).1
  have hheld := hdata.drop (8 * index)
  rw [Program.drop_dataBytes hf] at hheld
  rw [displacement_toUInt64 hlt hbyte, ← UInt64.add_assoc]
  exact hheld.of_append_left.read64

end Compile
end InlineCache
