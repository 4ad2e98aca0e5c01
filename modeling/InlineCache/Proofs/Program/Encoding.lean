import InlineCache.Program.Instruction
import InlineCache.Proofs.Ensures

/-!
# Reading instructions back

Reading is the inverse of writing. `Args.read_bytes` says it for arguments and for any test of them
that they pass, so that it serves the decoder, which tests nothing, and the compiler, which tests
operands and fields while it reads. `Instruction.decode_flatMap` is the statement for whole
programs.

The other direction holds as well: what a reader has taken off are the bytes of what it returns, so
bytes that decode at all are the only bytes of their instructions (`flatMap_of_decode`).
-/

namespace InlineCache

/-! ## Arguments -/

/-- Whether a byte can hold the argument, where it is an operand or a field. -/
def ArgKind.Encodable : (k : ArgKind) → k.Decoded → Prop
  | .use, x => x.index < 256
  | .define, x => x.index < 256
  | .field _, index => index < 256
  | _, _ => True

/-- Each argument meets a condition. -/
def Args.All (P : (k : ArgKind) → k.Decoded → Prop) : (ks : List ArgKind) → Args ks → Prop
  | [], _ => True
  | k :: ks, (a, as) => P k a ∧ All P ks as

theorem Args.All.mono_of_mem {P Q : (k : ArgKind) → k.Decoded → Prop} {ks : List ArgKind}
    {as : Args ks} (h : All P ks as) (hPQ : ∀ k ∈ ks, ∀ a, P k a → Q k a) : All Q ks as := by
  induction ks with
  | nil => trivial
  | cons k ks ih =>
      exact ⟨hPQ k (by simp) as.1 h.1, ih h.2 fun k' hk' => hPQ k' (List.mem_cons_of_mem k hk')⟩

theorem Args.All.mono {P Q : (k : ArgKind) → k.Decoded → Prop} {ks : List ArgKind} {as : Args ks}
    (h : All P ks as) (hPQ : ∀ k a, P k a → Q k a) : All Q ks as :=
  h.mono_of_mem fun k _ => hPQ k

theorem Args.All.and {P Q : (k : ArgKind) → k.Decoded → Prop} {ks : List ArgKind} {as : Args ks}
    (h : All P ks as) (h' : All Q ks as) : All (fun k a => P k a ∧ Q k a) ks as := by
  induction ks with
  | nil => trivial
  | cons k ks ih => exact ⟨⟨h.1, h'.1⟩, ih h.2 h'.2⟩

namespace Cursor

variable {offset : Nat} {rest : List UInt8}

theorem byte_cons (b : UInt8) : byte ⟨offset, b :: rest⟩ = .ok b ⟨offset + 1, rest⟩ := rfl

theorem byteAs_cons {α : Type} {meaning? : UInt8 → Option α} {b : UInt8} {a : α}
    (h : meaning? b = some a) (otherwise : Malformation) :
    byteAs meaning? otherwise ⟨offset, b :: rest⟩ = .ok a ⟨offset + 1, rest⟩ := by
  rw [byteAs, get_bind, bind_of_ok (byte_cons b), h]
  rfl

theorem op_cons (op : Op) : Cursor.op ⟨offset, op.byte :: rest⟩ = .ok op ⟨offset + 1, rest⟩ :=
  byteAs_cons (Op.ofByte?_byte op) _

theorem operand_cons {x : OperandId} (h : x.index < 256) :
    operand ⟨offset, x.index.toUInt8 :: rest⟩ = .ok x ⟨offset + 1, rest⟩ := by
  show EStateM.Result.ok (OperandId.mk x.index.toUInt8.toNat) _ = _
  rw [Nat.toUInt8_eq, UInt8.toNat_ofNat_of_lt' h]

theorem fieldIndex_cons {index : Nat} (h : index < 256) :
    fieldIndex ⟨offset, index.toUInt8 :: rest⟩ = .ok index ⟨offset + 1, rest⟩ := by
  show EStateM.Result.ok index.toUInt8.toNat _ = _
  rw [Nat.toUInt8_eq, UInt8.toNat_ofNat_of_lt' h]

theorem int32_append (i : Int32) :
    int32 ⟨offset, Word.bytes32 i.toUInt32 ++ rest⟩ = .ok i ⟨offset + 4, rest⟩ := by
  rw [int32, get_bind, Word.take32?_bytes32_append]
  rfl

end Cursor

theorem ArgKind.read_bytes {k : ArgKind} {a : k.Decoded} (h : k.Encodable a) (offset : Nat)
    (rest : List UInt8) :
    k.read ⟨offset, k.bytes a ++ rest⟩ = .ok a ⟨offset + (k.bytes a).length, rest⟩ := by
  cases k with
  | use => exact Cursor.operand_cons h
  | define => exact Cursor.operand_cons h
  | classKind => exact Cursor.byteAs_cons (ClassKind.ofByte?_byte a) _
  | bool => exact Cursor.byteAs_cons (by cases a <;> rfl) _
  | int32 => exact Cursor.int32_append a
  | field t => exact Cursor.fieldIndex_cons h

/-- Arguments that pass the test are read as they were written. -/
theorem Args.read_bytes {check : Check} {ks : List ArgKind} {as : Args ks}
    (h : All ArgKind.Encodable ks as) (hcheck : All (fun k a => ∀ o, check k o a = .ok ()) ks as)
    (offset : Nat) (rest : List UInt8) :
    read check ks ⟨offset, bytes ks as ++ rest⟩ =
      .ok as ⟨offset + (bytes ks as).length, rest⟩ := by
  induction ks generalizing offset with
  | nil => rfl
  | cons k ks ih =>
      obtain ⟨a, as⟩ := as
      rw [read, get_bind, bytes, List.append_assoc,
        bind_of_ok (ArgKind.read_bytes h.1 offset _), hcheck.1 offset]
      refine (bind_of_ok (ih h.2 hcheck.2 _)).trans ?_
      show EStateM.Result.ok _ _ = EStateM.Result.ok _ _
      rw [List.length_append, Nat.add_assoc]

/-! ## Programs -/

namespace Instruction

/-- Whether the arguments fit into their bytes. -/
def Encodable (i : Instruction) : Prop :=
  Args.All ArgKind.Encodable i.op.schema i.args

theorem read_bytes {i : Instruction} (h : i.Encodable) (offset : Nat) (rest : List UInt8) :
    read ⟨offset, i.bytes ++ rest⟩ = .ok i ⟨offset + i.bytes.length, rest⟩ := by
  have hcheck : Args.All (fun k a => ∀ o : Nat, (Except.ok () : Except Malformed Unit) = .ok ())
      i.op.schema i.args := h.mono fun _ _ _ _ => rfl
  show (Cursor.op >>= fun op => Args.read (fun _ _ _ => .ok ()) op.schema >>= fun args =>
    pure ⟨op, args⟩ : Read Instruction) ⟨offset, i.op.byte :: (Args.bytes i.op.schema i.args ++ rest)⟩ = _
  rw [bind_of_ok (Cursor.op_cons i.op), bind_of_ok (Args.read_bytes h hcheck (offset + 1) rest)]
  show EStateM.Result.ok _ _ = EStateM.Result.ok _ _
  rw [bytes, List.length_cons, Nat.add_assoc, Nat.add_comm 1]

theorem readMany_flatMap {is : List Instruction} (h : ∀ i ∈ is, i.Encodable) (offset : Nat)
    {limit : Nat} (hlimit : is.length ≤ limit) :
    readMany limit ⟨offset, is.flatMap bytes⟩ =
      .ok is ⟨offset + (is.flatMap bytes).length, []⟩ := by
  induction is generalizing offset limit with
  | nil => cases limit <;> rfl
  | cons i is ih =>
      obtain _ | limit := limit
      · simp at hlimit
      · rw [List.flatMap_cons]
        show (read >>= fun i => readMany limit >>= fun is => pure (i :: is) :
          Read (List Instruction)) ⟨offset, i.bytes ++ is.flatMap bytes⟩ = _
        rw [bind_of_ok (read_bytes (h i (by simp)) offset _),
          bind_of_ok (ih (fun j hj => h j (by simp [hj])) _ (by simpa using hlimit))]
        show EStateM.Result.ok _ _ = EStateM.Result.ok _ _
        rw [List.length_append, Nat.add_assoc]

theorem length_le_flatMap (is : List Instruction) : is.length ≤ (is.flatMap bytes).length := by
  induction is with
  | nil => exact Nat.le_refl 0
  | cons i is ih =>
      simp only [List.flatMap_cons, List.length_append, List.length_cons, bytes]
      omega

/-- Decoding gives back the instructions whose bytes were written. -/
theorem decode_flatMap {is : List Instruction} (h : ∀ i ∈ is, i.Encodable) :
    decode (is.flatMap bytes) = .ok is := by
  have hread := readMany_flatMap h 0 (length_le_flatMap is)
  rw [decode, Cursor.start, EStateM.run, hread]

end Instruction

/-- The bytes of a word can be had in one way only. -/
theorem Word.eq_bytes32_of_take32? {bs rest : List UInt8} {w : UInt32}
    (h : take32? bs = some (w, rest)) : bs = bytes32 w ++ rest := by
  rcases bs with _ | ⟨b0, _ | ⟨b1, _ | ⟨b2, _ | ⟨b3, bs⟩⟩⟩⟩ <;> cases h
  have h0 := b0.toNat_lt
  have h1 := b1.toNat_lt
  have h2 := b2.toNat_lt
  have h3 := b3.toNat_lt
  simp only [bytes32, ofBytes32, List.cons_append, List.nil_append, List.cons.injEq, and_true,
    ← UInt8.toNat_inj, UInt32.toNat_toUInt8, UInt32.toNat_shiftRight, Nat.toUInt32_eq,
    UInt32.toNat_ofNat', Nat.shiftRight_eq_div_pow]
  simp only [UInt32.reduceToNat, Nat.reduceMod, Nat.reducePow]
  omega

/-! ## What was read -/

namespace Cursor

variable {c c' : Cursor}

theorem rest_of_byte {b : UInt8} (h : byte c = .ok b c') : c.rest = b :: c'.rest := by
  rw [byte, get_bind] at h
  cases hrest : c.rest with
  | nil =>
      rw [hrest] at h
      cases h
  | cons b' rest =>
      rw [hrest] at h
      cases h
      rfl

theorem rest_of_byteAs {α : Type} {meaning? : UInt8 → Option α} {otherwise : Malformation} {a : α}
    (h : byteAs meaning? otherwise c = .ok a c') :
    ∃ b, meaning? b = some a ∧ c.rest = b :: c'.rest := by
  rw [byteAs, get_bind] at h
  obtain ⟨b, c₁, hbyte, h⟩ := exists_of_bind_ok h
  cases hb : meaning? b with
  | none =>
      rw [hb] at h
      cases h
  | some a' =>
      rw [hb] at h
      cases h
      exact ⟨b, hb, rest_of_byte hbyte⟩

theorem rest_of_op {o : Op} (h : Cursor.op c = .ok o c') : c.rest = o.byte :: c'.rest := by
  obtain ⟨b, hb, hrest⟩ := rest_of_byteAs h
  have hbyte : ∀ {b : UInt8}, Op.ofByte? b = some o → b = o.byte := by
    intro b hb
    obtain ⟨hlt, hget⟩ := List.getElem?_eq_some_iff.mp hb
    have hidx : b.toNat = o.byte.toNat := by
      have hall : ∀ i : Fin Op.all.length, (Op.all.get i).byte.toNat = i.val := by decide
      have := hall ⟨b.toNat, hlt⟩
      rw [List.get_eq_getElem, hget] at this
      exact this.symm
    exact UInt8.toNat_inj.mp hidx
  rw [hrest, hbyte hb]

theorem rest_of_int32 {i : Int32} (h : int32 c = .ok i c') :
    c.rest = Word.bytes32 i.toUInt32 ++ c'.rest := by
  rw [int32, get_bind] at h
  cases hw : Word.take32? c.rest with
  | none =>
      rw [hw] at h
      cases h
  | some r =>
      obtain ⟨w, rest⟩ := r
      rw [hw] at h
      cases h
      exact Word.eq_bytes32_of_take32? hw

end Cursor

/-- What was read for an argument are the bytes of the argument. -/
theorem ArgKind.rest_of_read {k : ArgKind} {a : k.Decoded} {c c' : Cursor}
    (h : k.read c = .ok a c') : c.rest = k.bytes a ++ c'.rest := by
  -- An operand and an index are their byte.
  have hbyte : ∀ {α : Type} {f : UInt8 → α} {x : α}, (do return f (← Cursor.byte) : Read α) c =
      .ok x c' → ∃ b, x = f b ∧ c.rest = b :: c'.rest := by
    intro α f x hx
    obtain ⟨b, c₁, hb, hx⟩ := exists_of_bind_ok hx
    cases hx
    exact ⟨b, rfl, Cursor.rest_of_byte hb⟩
  cases k with
  | use =>
      obtain ⟨b, rfl, hrest⟩ := hbyte h
      rw [hrest, bytes, Nat.toUInt8_eq, UInt8.ofNat_toNat]
      rfl
  | define =>
      obtain ⟨b, rfl, hrest⟩ := hbyte h
      rw [hrest, bytes, Nat.toUInt8_eq, UInt8.ofNat_toNat]
      rfl
  | classKind =>
      obtain ⟨b, hb, hrest⟩ := Cursor.rest_of_byteAs h
      rw [hrest, bytes, List.singleton_append]
      congr 1
      rw [ClassKind.ofByte?.eq_def] at hb
      split at hb <;> cases hb <;> rfl
  | bool =>
      obtain ⟨b, hb, hrest⟩ := Cursor.rest_of_byteAs h
      rw [hrest, bytes, List.singleton_append]
      congr 1
      rw [Cursor.boolOfByte?.eq_def] at hb
      split at hb <;> cases hb <;> rfl
  | int32 => exact Cursor.rest_of_int32 h
  | field t =>
      obtain ⟨b, rfl, hrest⟩ := hbyte h
      rw [hrest, bytes, Nat.toUInt8_eq, UInt8.ofNat_toNat]
      rfl

theorem Args.rest_of_read {check : Check} {ks : List ArgKind} {as : Args ks} {c c' : Cursor}
    (h : read check ks c = .ok as c') : c.rest = bytes ks as ++ c'.rest := by
  induction ks generalizing c with
  | nil =>
      cases h
      rfl
  | cons k ks ih =>
      rw [read, get_bind] at h
      obtain ⟨a, c₁, ha, h⟩ := exists_of_bind_ok h
      cases hcheck : check k c.offset a with
      | error e =>
          rw [hcheck] at h
          cases h
      | ok u =>
          rw [hcheck] at h
          obtain ⟨as', c₂, has, h⟩ := exists_of_bind_ok h
          cases h
          rw [ArgKind.rest_of_read ha, ih has, bytes, List.append_assoc]

namespace Instruction

theorem rest_of_read {i : Instruction} {c c' : Cursor} (h : read c = .ok i c') :
    c.rest = i.bytes ++ c'.rest := by
  rw [read] at h
  obtain ⟨op, c₁, hop, h⟩ := exists_of_bind_ok h
  obtain ⟨args, c₂, hargs, h⟩ := exists_of_bind_ok h
  cases h
  rw [Cursor.rest_of_op hop, Args.rest_of_read hargs]
  rfl

/-- Reading up to the end takes everything, if the limit leaves it enough room. -/
theorem rest_of_readMany {limit : Nat} {is : List Instruction} {c c' : Cursor}
    (hlimit : c.rest.length ≤ limit) (h : readMany limit c = .ok is c') :
    c.rest = is.flatMap bytes := by
  induction limit generalizing c is with
  | zero =>
      cases h
      exact List.length_eq_zero_iff.mp (Nat.le_zero.mp hlimit)
  | succ limit ih =>
      rw [readMany, get_bind] at h
      by_cases hmore : c.more = true
      · rw [if_pos hmore] at h
        obtain ⟨i, c₁, hi, h⟩ := exists_of_bind_ok h
        obtain ⟨is', c₂, his, h⟩ := exists_of_bind_ok h
        cases h
        have hrest := rest_of_read hi
        have hlen := congrArg List.length hrest
        rw [List.length_append, bytes, List.length_cons] at hlen
        rw [hrest, ih (by omega) his]
        rfl
      · rw [if_neg hmore] at h
        cases h
        simpa [Cursor.more] using hmore

/-- Bytes that can be decoded are the bytes of what they decode to. -/
theorem flatMap_of_decode {bs : List UInt8} {is : List Instruction} (h : decode bs = .ok is) :
    is.flatMap bytes = bs := by
  rw [decode, EStateM.run] at h
  cases hread : readMany bs.length (Cursor.start bs) with
  | error e c =>
      rw [hread] at h
      cases h
  | ok is' c =>
      rw [hread] at h
      cases h
      exact (rest_of_readMany (c := .start bs) (Nat.le_refl bs.length) hread).symm

end Instruction
end InlineCache
