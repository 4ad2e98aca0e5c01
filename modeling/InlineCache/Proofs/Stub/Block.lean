import InlineCache.Proofs.Ensures
import InlineCache.Proofs.Stub.Data
import InlineCache.Stub.Info

/-!
# Data blocks

A block that has room for the fields of a program is filled with their words, one after the other,
and keeps what lies behind them; the collector hears of every field that is not raw
(`fillData_eq`). Comparing a block with a program asks whether it starts with these words
(`dataEquals_iff`). The description of a program whose length fits in 32 bits gives back the types of
its fields, and with them the fields of every block that a program with these types has filled
(`StubInfo.field_ofProgram`). The description need not come from the program that filled the block,
which is what stubs with shared code rest on.
-/

namespace InlineCache

theorem FieldType.totalSize_eq (ts : List FieldType) : totalSize ts = 8 * ts.length := by
  induction ts with
  | nil => rfl
  | cons t ts ih =>
      rw [totalSize, ih, size, List.length_cons]
      omega

/-! ## Words in a block -/

theorem Word.bytes64_ofBytes64 (b0 b1 b2 b3 b4 b5 b6 b7 : UInt8) :
    bytes64 (ofBytes64 b0 b1 b2 b3 b4 b5 b6 b7) = [b0, b1, b2, b3, b4, b5, b6, b7] := by
  have h0 := b0.toNat_lt
  have h1 := b1.toNat_lt
  have h2 := b2.toNat_lt
  have h3 := b3.toNat_lt
  have h4 := b4.toNat_lt
  have h5 := b5.toNat_lt
  have h6 := b6.toNat_lt
  have h7 := b7.toNat_lt
  simp only [bytes64, List.cons.injEq, and_true]
  refine ⟨?_, ?_, ?_, ?_, ?_, ?_, ?_, ?_⟩ <;> apply UInt8.toNat_inj.mp <;>
    simp [ofBytes64, Nat.shiftRight_eq_div_pow] <;> omega

theorem Block.read?_eq_some_iff {data : List UInt8} {offset : Nat} {w : UInt64} :
    read? data offset = some w ↔ Word.bytes64 w <+: data.drop offset := by
  rw [read?]
  constructor
  · intro h
    obtain ⟨⟨w', rest⟩, htake, rfl⟩ := Option.map_eq_some_iff.mp h
    refine ⟨rest, ?_⟩
    unfold Word.take64? at htake
    split at htake
    · next heq =>
        cases htake
        rw [Word.bytes64_ofBytes64, heq]
        rfl
    · cases htake
  · rintro ⟨rest, hrest⟩
    rw [← hrest, Word.take64?_bytes64_append]
    rfl

namespace Block

variable {front rest : List UInt8} {w : UInt64}

theorem read?_append : read? (front ++ (Word.bytes64 w ++ rest)) front.length = some w := by
  rw [read?_eq_some_iff, List.drop_left]
  exact List.prefix_append _ _

theorem write?_append {old : List UInt8} (hold : old.length = 8) :
    write? (front ++ (old ++ rest)) front.length w =
      some (front ++ (Word.bytes64 w ++ rest)) := by
  have hdrop : (front ++ (old ++ rest)).drop (front.length + 8) = rest := by
    rw [← List.drop_drop, List.drop_left, ← hold, List.drop_left]
  rw [write?, if_pos (by simp [hold]), List.take_left, hdrop, List.append_assoc]

end Block

/-- Fields stand in a block if the first is at the offset and the others are behind it. -/
theorem Field.serialize_cons_prefix_iff {f : Field} {fs : List Field} {data : List UInt8}
    {offset : Nat} : serialize (f :: fs) <+: data.drop offset ↔
      Block.read? data offset = some f.word ∧ serialize fs <+: data.drop (offset + f.size) := by
  have hdrop : ∀ {rest}, Word.bytes64 f.word ++ rest = data.drop offset →
      data.drop (offset + f.size) = rest := by
    intro rest hrest
    rw [← List.drop_drop, ← hrest]
    exact List.drop_left' (Word.length_bytes64 _)
  rw [Block.read?_eq_some_iff, serialize_cons]
  constructor
  · rintro ⟨rest, hrest⟩
    rw [List.append_assoc] at hrest
    rw [hdrop hrest]
    exact ⟨⟨_, hrest⟩, List.prefix_append _ _⟩
  · rintro ⟨⟨rest, hrest⟩, hfs⟩
    rw [hdrop hrest] at hfs
    rw [← hrest]
    exact (List.prefix_append_right_inj _).mpr hfs

theorem Field.read?_of_serialized {fs : List Field} {data : List UInt8} {offset index : Nat}
    {f : Field} (h : serialize fs <+: data.drop offset) (hf : fs[index]? = some f) :
    Block.read? data (offset + 8 * index) = some f.word := by
  induction fs generalizing offset index with
  | nil => cases hf
  | cons g fs ih =>
      obtain ⟨hread, hrest⟩ := serialize_cons_prefix_iff.mp h
      cases index with
      | zero =>
          cases hf
          exact hread
      | succ index =>
          have hnext := @ih (offset + g.size) index hrest hf
          rwa [Nat.add_assoc, show g.size + 8 * index = 8 * (index + 1) by
            rw [size, FieldType.size]; omega] at hnext

/-! ## Filling -/

/-- What the collector is told when the field is stored at an offset. It does not hear of raw
fields, and the word is in its place when it hears of the others. -/
def Field.report? (f : Field) (offset : Nat) : Option Barrier :=
  match f.type with
  | .rawWord | .rawInt64 => none
  | t => some ⟨t, offset, f.word, true⟩

namespace Fill

variable {front rest : List UInt8} {bs : Array Barrier}

theorem store_append {old : List UInt8} (hold : old.length = 8) (f : Field) :
    store front.length f ⟨front ++ (old ++ rest), bs⟩ =
      .ok () ⟨front ++ (Word.bytes64 f.word ++ rest),
        bs ++ (f.report? front.length).toList.toArray⟩ := by
  rw [store, get_bind]
  simp only [Block.write?_append hold, Block.read?_append]
  obtain ⟨t, w⟩ := f
  cases t <;> simp [FieldType.isGC, Field.report?] <;> rfl

/-- The fields go behind what is in the block already, `index` fields. -/
theorem storeAll_append {fs : List Field} {index : Nat} {old : List UInt8}
    (hfront : front.length = 8 * index) (hold : old.length = 8 * fs.length) :
    storeAll front.length fs ⟨front ++ (old ++ rest), bs⟩ =
      .ok () ⟨front ++ (Field.serialize fs ++ rest),
        bs ++ ((fs.zipIdx index).filterMap fun x => x.1.report? (8 * x.2)).toArray⟩ := by
  -- A stored word goes over to `front`, which stays a whole number of words.
  induction fs generalizing front index old bs with
  | nil =>
      obtain rfl := List.length_eq_zero_iff.mp hold
      rw [List.zipIdx_nil, List.filterMap_nil, Array.append_empty]
      rfl
  | cons f fs ih =>
      rw [List.length_cons] at hold
      have hsplit : old = old.take 8 ++ old.drop 8 := (List.take_append_drop 8 old).symm
      have hhead : (old.take 8).length = 8 := by rw [List.length_take]; omega
      have htail : (old.drop 8).length = 8 * fs.length := by rw [List.length_drop]; omega
      have hnext : (front ++ Word.bytes64 f.word).length = 8 * (index + 1) := by
        rw [List.length_append, Word.length_bytes64]
        omega
      have hstore := @store_append front (old.drop 8 ++ rest) bs (old.take 8) hhead f
      have hrest := @ih (front ++ Word.bytes64 f.word)
        (bs ++ (f.report? front.length).toList.toArray) (index + 1) (old.drop 8) hnext htail
      rw [hsplit, List.append_assoc, storeAll, bind_of_ok hstore]
      rw [List.length_append, Word.length_bytes64, List.append_assoc, List.append_assoc] at hrest
      refine hrest.trans ?_
      rw [Field.serialize_cons, List.append_assoc, List.zipIdx_cons, List.filterMap_cons,
        Array.append_assoc, ← hfront]
      cases f.report? front.length <;> simp

end Fill

namespace Program

/-- The types of the fields in order. -/
def fieldTypes (p : Program) : List FieldType :=
  p.fields.toList.map Field.type

theorem length_fieldTypes (p : Program) : p.fieldTypes.length = p.fields.size := by
  rw [fieldTypes, List.length_map, Array.length_toList]

theorem dataSize_eq (p : Program) : p.dataSize = 8 * p.fields.size := by
  rw [← length_fieldTypes]
  exact FieldType.totalSize_eq _

theorem length_dataBytes (p : Program) : p.dataBytes.length = p.dataSize := by
  rw [dataSize_eq, ← Array.length_toList]
  exact Field.length_serialize _

/-- A field is found where the fields before it end. -/
theorem read?_of_dataBytes {p : Program} {data : List UInt8} (hdata : p.dataBytes <+: data)
    {index : Nat} {f : Field} (hf : p.fields[index]? = some f) :
    Block.read? data (8 * index) = some f.word := by
  have hread := @Field.read?_of_serialized p.fields.toList data 0 index f hdata
    (by rw [Array.getElem?_toList]; exact hf)
  rwa [Nat.zero_add] at hread

/-- What the collector is told when the fields are stored at these offsets: one report for each
field that is not raw, in their order. -/
def reports (p : Program) (offset : Nat → Nat) : List Barrier :=
  p.fields.toList.zipIdx.filterMap fun x => x.1.report? (offset x.2)

/-- A block comes to start with the fields and keeps what lies behind them. -/
theorem storeAll_fields {p : Program} {data : List UInt8} (h : p.dataSize ≤ data.length)
    (bs : Array Barrier) :
    Fill.storeAll 0 p.fields.toList ⟨data, bs⟩ = .ok () ⟨p.dataBytes ++ data.drop p.dataSize,
      bs ++ (p.reports (8 * ·)).toArray⟩ := by
  have hold : (data.take p.dataSize).length = 8 * p.fields.toList.length := by
    rw [List.length_take, Nat.min_eq_left h, dataSize_eq, Array.length_toList]
  have hfill := @Fill.storeAll_append [] (data.drop p.dataSize) bs p.fields.toList 0 _ rfl hold
  rw [List.nil_append, List.take_append_drop] at hfill
  exact hfill

theorem fillData_eq {p : Program} {data : List UInt8} (h : p.dataSize ≤ data.length)
    (bs : Array Barrier) :
    p.fillData ⟨data, bs⟩ = .ok () ⟨p.dataBytes ++ data.drop p.dataSize,
      bs ++ (p.reports (8 * ·)).toArray⟩ := by
  rw [fillData, get_bind, if_neg (Nat.not_lt.mpr h)]
  exact storeAll_fields h bs

/-- A block of the right size comes to hold the fields and nothing else. -/
theorem fillData_ok {p : Program} {data : List UInt8} (h : data.length = p.dataSize)
    (bs : Array Barrier) : ∃ bs', p.fillData ⟨data, bs⟩ = .ok () ⟨p.dataBytes, bs'⟩ := by
  have hfill := fillData_eq (Nat.le_of_eq h.symm) bs
  rw [List.drop_eq_nil_of_le (Nat.le_of_eq h), List.append_nil] at hfill
  exact ⟨_, hfill⟩

theorem fillData_tooSmall {p : Program} {data : List UInt8} (h : data.length < p.dataSize)
    (bs : Array Barrier) : p.fillData ⟨data, bs⟩ = .error .tooSmall ⟨data, bs⟩ := by
  rw [fillData, get_bind, if_pos h]
  rfl

/-! ## Comparing -/

theorem matchFrom_iff {data : List UInt8} {offset : Nat} {fs : List Field} :
    dataEquals.matchFrom data offset fs = true ↔ Field.serialize fs <+: data.drop offset := by
  induction fs generalizing offset with
  | nil => exact iff_of_true rfl List.nil_prefix
  | cons f fs ih =>
      rw [dataEquals.matchFrom, Bool.and_eq_true, beq_iff_eq, ih, Field.serialize_cons_prefix_iff]

/-- A block is compared with the bytes of the fields. -/
theorem dataEquals_iff {p : Program} {data : List UInt8} :
    p.dataEquals data = true ↔ p.dataBytes <+: data := by
  rw [dataEquals]
  split
  · next hshort =>
      have hnot : ¬p.dataBytes <+: data := fun h => by
        have := h.length_le
        rw [length_dataBytes] at this
        omega
      exact iff_of_false (by decide) hnot
  · rw [matchFrom_iff, List.drop_zero]
    rfl

end Program

/-! ## Descriptions -/

/-- The length of the program fits in 32 bits. -/
def Program.Short (p : Program) : Prop :=
  p.code.size < 2 ^ 32

instance (p : Program) : Decidable p.Short :=
  inferInstanceAs (Decidable (p.code.size < 2 ^ 32))

namespace StubInfo

variable {p q : Program} {e : Engine} {gcCalls : Bool} {offset : Nat}

theorem fieldTypes?_eq_ok_iff {s : StubInfo} {ts : List FieldType} :
    s.fieldTypes? = .ok ts ↔ s.fieldTypes = ts ∧ s.typesEnd = .ok () := by
  rw [fieldTypes?]
  cases s.typesEnd with
  | error err => exact iff_of_false (fun h => by cases h) fun h => by cases h.2
  | ok u => exact ⟨fun h => ⟨Except.ok.inj h, rfl⟩, fun h => congrArg Except.ok h.1⟩

theorem typesOf_append (ts : List FieldType) :
    typesOf (ts.map FieldType.byte ++ [FieldTag.limit.byte]) = (ts, .ok ()) := by
  induction ts with
  | nil => rfl
  | cons t ts ih =>
      have htag : FieldTag.ofByte? t.byte = some (.type t) := FieldTag.ofByte?_byte (.type t)
      rw [List.map_cons, List.cons_append, typesOf, htag, ih]
      rfl

theorem codeLength_eq_mod :
    (ofProgram p e gcCalls offset).codeLength = p.code.size % 2 ^ 32 :=
  UInt32.toNat_ofNat'

section
variable (hp : p.Short)
include hp

theorem codeLength_ofProgram :
    (ofProgram p e gcCalls offset).codeLength = p.code.toList.length := by
  rw [codeLength_eq_mod, Nat.mod_eq_of_lt hp, Array.length_toList]

theorem code_ofProgram : (ofProgram p e gcCalls offset).code = p.code.toList := by
  rw [code, codeLength_ofProgram hp, ofProgram, List.append_assoc, List.take_left]

theorem fieldTypes?_ofProgram :
    (ofProgram p e gcCalls offset).fieldTypes? = .ok p.fieldTypes := by
  have hbytes : p.fields.toList.map (·.type.byte) = p.fieldTypes.map FieldType.byte := by
    rw [Program.fieldTypes, List.map_map]
    rfl
  rw [fieldTypes?, fieldTypes, typesEnd, codeLength_ofProgram hp, ofProgram, List.append_assoc,
    List.drop_left, hbytes, typesOf_append]
  rfl

theorem fieldTypes_ofProgram : (ofProgram p e gcCalls offset).fieldTypes = p.fieldTypes :=
  (fieldTypes?_eq_ok_iff.mp (fieldTypes?_ofProgram hp)).1

theorem typesEnd_ofProgram : (ofProgram p e gcCalls offset).typesEnd = .ok () :=
  (fieldTypes?_eq_ok_iff.mp (fieldTypes?_ofProgram hp)).2

theorem dataSize_ofProgram : (ofProgram p e gcCalls offset).dataSize = p.dataSize := by
  rw [dataSize, fieldTypes_ofProgram hp]
  rfl

theorem fieldTag?_ofProgram {index : Nat} {t : FieldType} (h : p.fieldTypes[index]? = some t) :
    (ofProgram p e gcCalls offset).fieldTag? index = some (.type t) := by
  have hlt : index < (p.fields.toList.map (·.type.byte)).length := by
    have := (List.getElem?_eq_some_iff.mp h).1
    rw [Program.length_fieldTypes] at this
    simpa using this
  have hbyte : (p.fields.toList.map (·.type.byte))[index]? = some t.byte := by
    rw [Program.fieldTypes, List.getElem?_map] at h
    obtain ⟨f, hf, rfl⟩ := Option.map_eq_some_iff.mp h
    rw [List.getElem?_map, hf]
    rfl
  rw [fieldTag?, codeLength_ofProgram hp, ofProgram, List.append_assoc,
    List.getElem?_append_right (Nat.le_add_right _ _), Nat.add_sub_cancel_left,
    List.getElem?_append_left hlt, hbyte]
  exact FieldTag.ofByte?_byte (.type t)

theorem fieldOffset_ofProgram {index : Nat} (h : index < p.fields.size) :
    (ofProgram p e gcCalls offset).fieldOffset index = 8 * index := by
  rw [fieldOffset, fieldTypes_ofProgram hp, FieldType.totalSize_eq, List.length_take,
    Program.length_fieldTypes, Nat.min_eq_left (Nat.le_of_lt h)]

theorem fieldOffset?_ofProgram {index : Nat} (h : index < p.fields.size) :
    (ofProgram p e gcCalls offset).fieldOffset? index = .ok (8 * index) := by
  have hle : index ≤ (ofProgram p e gcCalls offset).fieldTypes.length := by
    rw [fieldTypes_ofProgram hp, Program.length_fieldTypes]
    exact Nat.le_of_lt h
  rw [fieldOffset?, if_pos hle, fieldOffset_ofProgram hp h]

/-- The fields of a block are found by the types of another program, if they are the same. -/
theorem field_ofProgram (htypes : p.fieldTypes = q.fieldTypes) {data : List UInt8}
    (hdata : q.dataBytes <+: data) {index : Nat} {f : Field} (hf : q.fields[index]? = some f) :
    (ofProgram p e gcCalls offset).field data index = .ok (some f) := by
  have hlt : index < p.fields.size := by
    rw [← Program.length_fieldTypes, htypes, Program.length_fieldTypes]
    exact (Array.getElem?_eq_some_iff.mp hf).1
  have htype : p.fieldTypes[index]? = some f.type := by
    rw [htypes, Program.fieldTypes, List.getElem?_map, Array.getElem?_toList, hf]
    rfl
  simp only [field, fieldTag?_ofProgram hp htype, fieldOffset?_ofProgram hp hlt,
    q.read?_of_dataBytes hdata hf]

end

end StubInfo
end InlineCache
