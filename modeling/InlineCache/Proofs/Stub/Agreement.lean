import InlineCache.Proofs.Codegen.Limits
import InlineCache.Proofs.Stub.Sharing

/-!
# Agreement on data blocks

Three loops find out where the fields of a program lie: the compiler fixes the displacements of
loads, the program fills a block, and the description, which has only the bytes of the types, reads
one. They come to the same offsets (`StubInfo.agrees_ofProgram`).

A block is filled from a program or copied from another block that a program has filled. Copying
such a block is storing its fields (`copyFields_eq_storeAll`), so both leave the same bytes and
report the same stores to the collector (`fillData_copyData`).

A block is compared with a program by reading as many words as the program has fields. What lies
behind them is not looked at, so a longer block passes (`dataEquals_written`,
`dataEquals_longer`).
-/

namespace InlineCache

/-! ## Offsets -/

/-- A description agrees with a program, with the blocks that the program fills and with the code
that is compiled for it. -/
structure StubInfo.Agrees (s : StubInfo) (p : Program) : Prop where
  code : s.code = p.code.toList
  types : s.fieldTypes? = .ok p.fieldTypes
  size : s.dataSize = p.dataSize
  /-- A field ends before every later one starts. -/
  apart : ∀ {i j : Nat} {f : Field}, p.fields[i]? = some f → i < j → j < p.fields.size →
    s.fieldOffset i + f.size ≤ s.fieldOffset j
  inside : ∀ {i : Nat} {f : Field}, p.fields[i]? = some f →
    s.fieldOffset i + f.size ≤ s.dataSize
  /-- Displacements are numbers of 32 bits. -/
  displacement : ∀ {i : Nat}, i < p.fields.size →
    Compile.displacement p i = Int32.ofNat (Layout.stubData + s.fieldOffset i)
  /-- Every field that an instruction can name is near enough. -/
  displacement_toInt : ∀ {i : Nat}, i < p.fields.size →
    i < 256 ∨ Layout.stubData + s.fieldOffset i < 2 ^ 31 →
    (Compile.displacement p i).toInt = Layout.stubData + s.fieldOffset i
  /-- The program puts every field where the description reads it. -/
  filled : ∀ {block : List UInt8} (bs : Array Barrier), s.dataSize ≤ block.length →
    ∃ data bs', p.fillData ⟨block, bs⟩ = .ok () ⟨data, bs'⟩ ∧ data.length = block.length ∧
      ∀ {i : Nat} {f : Field}, p.fields[i]? = some f →
        (data.drop (s.fieldOffset i)).take f.size = Word.bytes64 f.word ∧
        s.field data i = .ok (some f) ∧
        -- What a load reads, if the block is in memory behind the header of a stub.
        ∀ {m : Memory} {stub : UInt64}, i < 256 →
          m.Holds (stub + Layout.stubData.toUInt64) data →
          m.read64 (stub + (Compile.displacement p i).toInt64.toUInt64) = f.word

theorem Compile.toInt_displacement {p : Program} {i : Nat} (hi : i < p.fields.size)
    (hnear : Layout.stubData + 8 * i < 2 ^ 31) :
    (displacement p i).toInt = Layout.stubData + 8 * i := by
  have hwrap : (displacement p i).toInt = ((Layout.stubData + 8 * i : Nat) : Int) := by
    rw [displacement_eq hi]
    exact Int32.toInt_ofNat_of_lt hnear
  rw [hwrap, Int.natCast_add, Int.natCast_mul]
  rfl

theorem Field.take_drop_of_serialized {fs : List Field} {data : List UInt8} {index : Nat}
    {f : Field} (h : serialize fs <+: data) (hf : fs[index]? = some f) :
    (data.drop (8 * index)).take f.size = Word.bytes64 f.word := by
  have hread := @read?_of_serialized fs data 0 index f h hf
  rw [Nat.zero_add, Block.read?_eq_some_iff] at hread
  exact (List.prefix_iff_eq_take.mp hread).symm

def StubInfo.withKind (s : StubInfo) (kind : CacheKind) : StubInfo :=
  { s with kind }

/-- Any number of fields of any types, and any bytes in front of their types, fewer than `2 ^ 32`
of them. -/
theorem StubInfo.agrees_ofProgram {p : Program} (hp : p.Short) (kind : CacheKind) (e : Engine)
    (gcCalls : Bool) : ((ofProgram p e gcCalls Layout.stubData).withKind kind).Agrees p := by
  have hoffset : ∀ {i : Nat}, i < p.fields.size →
      ((ofProgram p e gcCalls Layout.stubData).withKind kind).fieldOffset i = 8 * i :=
    fun hi => @fieldOffset_ofProgram p e gcCalls Layout.stubData hp _ hi
  have hsize : ((ofProgram p e gcCalls Layout.stubData).withKind kind).dataSize = p.dataSize :=
    @dataSize_ofProgram p e gcCalls Layout.stubData hp
  have hlt : ∀ {i : Nat} {f : Field}, p.fields[i]? = some f → i < p.fields.size :=
    fun hf => (Array.getElem?_eq_some_iff.mp hf).1
  have hword : ∀ f : Field, f.size = 8 := fun _ => rfl
  refine ⟨@code_ofProgram p e gcCalls Layout.stubData hp,
    @fieldTypes?_ofProgram p e gcCalls Layout.stubData hp, hsize, fun {i j f} hf hij hj => ?_,
    fun {i f} hf => ?_, fun {i} hi => ?_, fun {i} hi hnear => ?_, fun {block} bs hroom => ?_⟩
  · rw [hoffset (hlt hf), hoffset hj, hword]
    omega
  · rw [hoffset (hlt hf), hsize, p.dataSize_eq, hword]
    have := hlt hf
    omega
  · rw [hoffset hi]
    exact Compile.displacement_eq hi
  · rw [hoffset hi] at hnear ⊢
    refine Compile.toInt_displacement hi ?_
    rw [Layout.stubData] at hnear ⊢
    omega
  · rw [hsize] at hroom
    refine ⟨_, _, Program.fillData_eq hroom bs, ?_, fun {i f} hf => ⟨?_, ?_, ?_⟩⟩
    · rw [List.length_append, p.length_dataBytes, List.length_drop, Nat.add_sub_cancel' hroom]
    · rw [hoffset (hlt hf)]
      exact Field.take_drop_of_serialized (List.prefix_append _ _)
        (by rw [Array.getElem?_toList]; exact hf)
    · exact @field_ofProgram p p e gcCalls Layout.stubData hp rfl _ (List.prefix_append _ _) i f hf
    · intro m stub hbyte hheld
      exact Compile.read64_displacement hf hbyte hheld.of_append_left

def Program.mixed : Program where
  kind := .getProp
  code := #[FieldTag.limit.byte, FieldType.shape.byte, FieldTag.limit.byte]
  lastUsed := #[0]
  fields := #[⟨.shape, 0x1000⟩, ⟨.rawWord, 40⟩, ⟨.value, (Value.ofInt32 3).bits⟩,
    ⟨.rawInt64, 0xFFFFFFFFFFFFFFFF⟩, ⟨.id, 0x3000⟩]
  numInstructions := 3

theorem StubInfo.agrees_ofProgram_mixed :
    let info := (ofProgram .mixed .baseline false Layout.stubData).withKind .getElem
    info.fieldTypes? = .ok [.shape, .rawWord, .value, .rawInt64, .id] ∧
      ∃ data bs, Program.mixed.fillData ⟨List.replicate 40 0, #[]⟩ = .ok () ⟨data, bs⟩ ∧
        info.field data 4 = .ok (some ⟨.id, 0x3000⟩) := by
  have h := @agrees_ofProgram .mixed (by decide) .getElem .baseline false
  obtain ⟨data, bs, hfill, -, hfields⟩ := @h.filled (List.replicate 40 0) #[] (by decide)
  exact ⟨h.types, data, bs, hfill, (@hfields 4 _ rfl).2.1⟩

/-- A length that is cut: the description has two bytes of the program and no field. -/
theorem StubInfo.not_agrees_overlong :
    let p := Program.overlong #[⟨.rawWord, 7⟩]
    let info := (ofProgram p .baseline false Layout.stubData).withKind .getProp
    p.Built ∧ p.dataSize = 8 ∧ info.code.length = 2 ∧ info.fieldTypes? = .ok [] ∧
      info.dataSize = 0 ∧ ¬info.Agrees p := by
  intro p info
  have hsize : info.dataSize = 0 := dataSize_overlong
  refine ⟨Program.built_constantGuards _ _, rfl, ?_, fieldTypes?_overlong, hsize, fun h => ?_⟩
  · obtain ⟨bs, hblock⟩ := @block_constantGuards #[⟨.rawWord, 7⟩] .baseline false Layout.stubData
      (2 ^ 31 - 3)
    have hlength : info.codeLength = 2 := codeLength_overlong
    rw [code, hlength, show info.block = _ from hblock]
    rfl
  · have height : info.dataSize = 8 := h.size
    rw [hsize] at height
    cases height

/-! ## Copying -/

theorem StubInfo.copyFields_eq_storeAll {src : List UInt8} {offset : Nat} {fs : List Field}
    (h : Field.serialize fs <+: src.drop offset) :
    copyFields src offset (fs.map Field.type) = Fill.storeAll offset fs := by
  induction fs generalizing offset with
  | nil => rfl
  | cons f fs ih =>
      obtain ⟨hread, hrest⟩ := Field.serialize_cons_prefix_iff.mp h
      rw [List.map_cons, copyFields]
      simp only [hread]
      rw [show offset + f.type.size = offset + f.size from rfl, ih hrest]
      rfl

theorem Program.reports_congr {p : Program} {offset offset' : Nat → Nat}
    (h : ∀ i < p.fields.size, offset i = offset' i) : p.reports offset = p.reports offset' := by
  refine List.filterMap_congr fun x hx => ?_
  rw [h x.2]
  have hlt := List.mem_zipIdx_iff_getElem?.mp hx
  rw [Array.getElem?_toList] at hlt
  exact (Array.getElem?_eq_some_iff.mp hlt).1

/-- The block holds the fields and what was behind them before. The collector hears of each field
that is not raw, in their order, with the offset at which the description finds it. -/
theorem Program.fillData_copyData {p : Program} (hp : p.Short) (kind : CacheKind) (e : Engine)
    (gcCalls : Bool) (offset : Nat) {src dest : List UInt8} (hsrc : p.dataBytes <+: src)
    (hdest : p.dataSize ≤ dest.length) (bs : Array Barrier) :
    let info := (StubInfo.ofProgram p e gcCalls offset).withKind kind
    let filled : Filling :=
      ⟨p.dataBytes ++ dest.drop p.dataSize, bs ++ (p.reports info.fieldOffset).toArray⟩
    p.fillData ⟨dest, bs⟩ = .ok () filled ∧ info.copyData src ⟨dest, bs⟩ = .ok () filled := by
  intro info filled
  have hoffset : p.reports (8 * ·) = p.reports info.fieldOffset :=
    reports_congr fun i hi => (@StubInfo.fieldOffset_ofProgram p e gcCalls offset hp i hi).symm
  have htypes : info.fieldTypes = p.fields.toList.map Field.type :=
    @StubInfo.fieldTypes_ofProgram p e gcCalls offset hp
  have hend : info.typesEnd = .ok () := @StubInfo.typesEnd_ofProgram p e gcCalls offset hp
  have hstored := storeAll_fields hdest bs
  rw [hoffset] at hstored
  refine ⟨?_, ?_⟩
  · rw [fillData_eq hdest, hoffset]
  · have hheld : Field.serialize p.fields.toList <+: src.drop 0 := hsrc
    rw [StubInfo.copyData, htypes, StubInfo.copyFields_eq_storeAll hheld, bind_of_ok hstored,
      StubInfo.endTypes, hend]
    rfl

theorem Program.fillData_copyData_mixed :
    let filled : Filling := ⟨mixed.dataBytes ++ List.replicate 8 0xAA,
      #[⟨.shape, 0, 0x1000, true⟩, ⟨.value, 16, (Value.ofInt32 3).bits, true⟩,
        ⟨.id, 32, 0x3000, true⟩]⟩
    mixed.fillData ⟨List.replicate 48 0xAA, #[]⟩ = .ok () filled ∧
      ((StubInfo.ofProgram .mixed .baseline false Layout.stubData).withKind .getElem).copyData
        (mixed.dataBytes ++ [1, 2]) ⟨List.replicate 48 0xAA, #[]⟩ = .ok () filled := by
  have hdest : mixed.dataSize ≤ (List.replicate 48 (0xAA : UInt8)).length := by decide
  exact @fillData_copyData mixed (by decide) .getElem .baseline false Layout.stubData
    _ _ (List.prefix_append _ [1, 2]) hdest #[]

theorem Program.copyData_overlong :
    let p := overlong #[⟨.shape, 0x1000⟩]
    let info := (StubInfo.ofProgram p .baseline false Layout.stubData).withKind .getProp
    p.Built ∧ p.dataSize = 8 ∧
      p.fillData ⟨List.replicate 8 0xAA, #[]⟩ =
        .ok () ⟨Word.bytes64 0x1000, #[⟨.shape, 0, 0x1000, true⟩]⟩ ∧
      info.copyData p.dataBytes ⟨List.replicate 8 0xAA, #[]⟩ =
        .ok () ⟨List.replicate 8 0xAA, #[]⟩ := by
  intro p info
  obtain ⟨htypes, hend⟩ := StubInfo.fieldTypes?_eq_ok_iff.mp
    (show info.fieldTypes? = .ok [] from StubInfo.fieldTypes?_overlong)
  refine ⟨built_constantGuards _ _, rfl, rfl, ?_⟩
  rw [StubInfo.copyData, htypes, StubInfo.endTypes, hend]
  rfl

/-! ## Comparing -/

/-- A block passes if it starts with what the program writes. Among blocks of the right size only
that one passes. -/
theorem Program.dataEquals_written {p : Program} {block : List UInt8}
    (hblock : block.length = p.dataSize) (bs : Array Barrier) :
    ∃ written bs', p.fillData ⟨block, bs⟩ = .ok () ⟨written, bs'⟩ ∧ written.length = p.dataSize ∧
      ∀ data, (p.dataEquals data = true ↔ written <+: data) ∧
        (data.length = p.dataSize → (p.dataEquals data = true ↔ data = written)) := by
  obtain ⟨bs', hfill⟩ := fillData_ok hblock bs
  refine ⟨p.dataBytes, bs', hfill, p.length_dataBytes, fun data => ⟨dataEquals_iff, ?_⟩⟩
  intro hdata
  rw [dataEquals_iff]
  constructor
  · intro hstart
    exact (hstart.eq_of_length (p.length_dataBytes.trans hdata.symm)).symm
  · rintro rfl
    exact List.prefix_rfl

theorem Program.dataEquals_written_mixed :
    ∃ written bs, mixed.fillData ⟨List.replicate 40 0, #[]⟩ = .ok () ⟨written, bs⟩ ∧
      mixed.dataEquals written = true ∧ mixed.dataEquals (List.replicate 40 0) = false := by
  obtain ⟨written, bs, hfill, -, hequals⟩ :=
    @dataEquals_written mixed (List.replicate 40 0) (by decide) #[]
  exact ⟨written, bs, hfill, (hequals written).1.mpr List.prefix_rfl, by decide⟩

/-- A block with one word more passes. So an attempt can be called a duplicate of a stub whose data
are not those of the attempt. -/
theorem Program.dataEquals_longer :
    (undefinedWith #[⟨.rawWord, 8⟩]).dataSize = 8 ∧
      (undefinedWith #[⟨.rawWord, 8⟩]).dataEquals (Word.bytes64 8 ++ Word.bytes64 9) = true ∧
      (Word.bytes64 8 ++ Word.bytes64 9).length = 16 ∧
      (Sites.decisions (Attempt.undefineds #[⟨.rawWord, 8⟩, ⟨.rawWord, 9⟩] #[⟨.rawWord, 8⟩])
        {}).map Decision.shown = [some "Attached", some "Duplicate"] := by
  refine ⟨rfl, ?_, rfl, ?_⟩ <;> decide +kernel

end InlineCache
