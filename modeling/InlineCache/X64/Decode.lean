import InlineCache.X64.Instr

/-!
# Decoding machine code

`Instr.decode?` reads one instruction off the front of a byte string. It knows the forms that
`Instr.encode` writes and refuses every other. `Instr.decode?_encode_append` says that it reads
back what was written, whatever follows.
-/

namespace InlineCache.X64.Instr

/-- The fields of the byte that widens register numbers. -/
structure Rex where
  w : Bool
  r : Bool
  x : Bool
  b : Bool
deriving DecidableEq

def Rex.ofByte? (byte : UInt8) : Option Rex :=
  let n := byte.toNat
  if n / 16 = 4 then
    some ⟨n / 8 % 2 = 1, n / 4 % 2 = 1, n / 2 % 2 = 1, n % 2 = 1⟩
  else none

/-- The register with these three low bits and this high bit. -/
def register (high : Bool) (low : Nat) : Register :=
  .ofCode ⟨low % 8 + if high then 8 else 0, by split <;> omega⟩

/-! ## Operands -/

/-- Reads a displacement. -/
def takeDisp? (bytes : List UInt8) : Option (Int32 × List UInt8) :=
  (Word.take32? bytes).map fun (w, rest) => (w.toInt32, rest)

/-- Reads two registers: one from the middle of the operand byte, one from its end. -/
def takeRegs? (rex : Rex) : List UInt8 → Option ((Register × Register) × List UInt8)
  | modrm :: rest =>
    let n := modrm.toNat
    if n / 64 = 3 ∧ rex.x = false then
      some ((register rex.r (n / 8), register rex.b n), rest)
    else none
  | [] => none

/-- Reads a register and a place in memory: a base with a displacement of 32 bits. -/
def takeMem? (rex : Rex) : List UInt8 → Option ((Register × Register × Int32) × List UInt8)
  | modrm :: sib :: rest =>
    let n := modrm.toNat
    let s := sib.toNat
    if n / 64 = 2 ∧ n % 8 = 4 ∧ s / 8 = 4 ∧ rex.x = false then
      (takeDisp? rest).map fun (d, rest) =>
        ((register rex.r (n / 8), register rex.b s, d), rest)
    else none
  | _ => none

/-! ## Instructions -/

/-- What is left to read of an instruction. -/
abbrev Decoded := Option (Instr Int32 × List UInt8)

/-- Instructions on two registers. -/
def decodeRegs? (rex : Rex) (make : Register → Register → Instr Int32) (bytes : List UInt8) :
    Decoded :=
  (takeRegs? rex bytes).map fun ((a, b), rest) => (make a b, rest)

/-- Instructions on a register and a place in memory. -/
def decodeMem? (rex : Rex) (make : Register → Register → Int32 → Instr Int32)
    (bytes : List UInt8) : Decoded :=
  (takeMem? rex bytes).map fun ((a, b, d), rest) => (make a b d, rest)

/-- A test of a register against itself. -/
def decodeTest? (rex : Rex) (bytes : List UInt8) : Decoded :=
  (takeRegs? rex bytes).bind fun ((a, b), rest) => if a = b then some (.test32 a, rest) else none

/-- A load from a base and an index without displacement. -/
def decodeIndexed? (rex : Rex) : List UInt8 → Decoded
  | modrm :: sib :: disp :: rest =>
    let n := modrm.toNat
    let s := sib.toNat
    if n / 64 = 1 ∧ n % 8 = 4 ∧ s / 64 = 0 ∧ disp = 0 ∧ rex.w = true then
      some (.loadIndexed (register rex.r (n / 8)) (register rex.b s) (register rex.x (s / 8)), rest)
    else none
  | _ => none

/-- A load through the stub register. -/
def decodeFollow? (rex : Rex) : List UInt8 → Decoded
  | modrm :: rest =>
    if modrm = 0x92 ∧ rex = ⟨true, false, false, false⟩ then
      (takeDisp? rest).map fun (d, rest) => (.follow d, rest)
    else none
  | [] => none

/-- Loads. The operand byte tells them apart. -/
def decodeLoad? (rex : Rex) (bytes : List UInt8) : Decoded :=
  match bytes with
  | [] => none
  | modrm :: _ =>
    if modrm.toNat / 64 = 1 then decodeIndexed? rex bytes
    else if modrm.toNat % 8 = 4 then
      decodeMem? rex (if rex.w then .load else .load32) bytes
    else decodeFollow? rex bytes

/-- Instructions with an immediate of 32 bits. -/
def decodeImm32? (rex : Rex) : List UInt8 → Decoded
  | modrm :: rest =>
    let n := modrm.toNat
    if rex.r = false ∧ rex.x = false then
      if modrm = 0xc4 ∧ rex.w = true ∧ rex.b = false then
        (takeDisp? rest).map fun (d, rest) => (.dropStack d, rest)
      else if n / 8 = 31 ∧ rex.w = false then
        (takeDisp? rest).map fun (d, rest) => (.cmp32Imm (register rex.b n) d, rest)
      else none
    else none
  | [] => none

/-- Shifts by a constant. -/
def decodeShift? (rex : Rex) : List UInt8 → Decoded
  | modrm :: amount :: rest =>
    let n := modrm.toNat
    if rex.w = true ∧ rex.r = false ∧ rex.x = false then
      if n / 8 = 28 then some (.shl (register rex.b n) amount, rest)
      else if n / 8 = 29 then some (.shr (register rex.b n) amount, rest)
      else none
    else none
  | _ => none

/-- Instructions that name their register in the opcode. -/
def decodeShort? (rex : Rex) (op : Nat) (rest : List UInt8) : Decoded :=
  if rex.r = false ∧ rex.x = false then
    let r := register rex.b op
    if op / 8 = 10 ∧ rex.w = false then some (.push r, rest)
    else if op / 8 = 11 ∧ rex.w = false then some (.pop r, rest)
    else if op / 8 = 23 ∧ rex.w = true then
      (Word.take64? rest).map fun (w, rest) => (.movImm r w, rest)
    else none
  else none

/-- Instructions that start with a widening byte. -/
def decodeRex? (rex : Rex) (op : UInt8) (rest : List UInt8) : Decoded :=
  match rex.w, op.toNat with
  | true, 0x89 => decodeRegs? rex (fun s d => .mov d s) rest
  | false, 0x89 => decodeRegs? rex (fun s d => .mov32 d s) rest
  | true, 0x09 => decodeRegs? rex (fun s d => .or d s) rest
  | true, 0x3b => decodeRegs? rex .cmp rest
  | true, 0x39 => decodeMem? rex (fun s b disp => .cmpMem b disp s) rest
  | false, 0x85 => decodeTest? rex rest
  | false, 0x01 => decodeRegs? rex (fun s d => .add32 d s) rest
  | false, 0x29 => decodeRegs? rex (fun s d => .sub32 d s) rest
  | _, 0x8b => decodeLoad? rex rest
  | _, 0x81 => decodeImm32? rex rest
  | _, 0xc1 => decodeShift? rex rest
  | _, n => decodeShort? rex n rest

/-- One instruction off the front of a byte string. -/
def decode? : List UInt8 → Decoded
  | first :: rest =>
    match first.toNat, rest with
    | 0xc3, _ => some (.ret, rest)
    | 0xe9, _ => (takeDisp? rest).map fun (d, rest) => (.jmp d, rest)
    | 0x0f, cc :: rest =>
      (Condition.ofByte? cc).bind fun c =>
        (takeDisp? rest).map fun (d, rest) => (.jcc c d, rest)
    | 0xff, modrm :: rest =>
      if modrm = 0xa2 then (takeDisp? rest).map fun (d, rest) => (.jmpStub d, rest) else none
    | _, op :: rest => (Rex.ofByte? first).bind fun rex => decodeRex? rex op rest
    | _, [] => none
  | [] => none

/-! ## Reading back -/

theorem takeDisp?_disp32 (d : Int32) (rest : List UInt8) :
    takeDisp? (disp32 d ++ rest) = some (d, rest) := by
  simp [takeDisp?, disp32]

theorem takeRegs?_regs (w : Bool) (a b : Register) (rest : List UInt8) :
    takeRegs? ⟨w, hi a, false, hi b⟩ (regs a b :: rest) = some ((a, b), rest) := by
  cases a <;> cases b <;> rfl

theorem takeMem?_mem (w : Bool) (a b : Register) (d : Int32) (rest : List UInt8) :
    takeMem? ⟨w, hi a, false, hi b⟩ (mem a b d ++ rest) = some ((a, b, d), rest) := by
  cases a <;> cases b <;> simp [takeMem?, mem, takeDisp?_disp32] <;> decide

theorem decode?_rex (w r x b : Bool) (op : UInt8) (rest : List UInt8) :
    decode? (rex w r x b :: op :: rest) = decodeRex? ⟨w, r, x, b⟩ op rest := by
  cases w <;> cases r <;> cases x <;> cases b <;> rfl

theorem decodeLoad?_mem (w : Bool) (a b : Register) (d : Int32) (rest : List UInt8) :
    decodeLoad? ⟨w, hi a, false, hi b⟩ (mem a b d ++ rest)
      = some ((if w then .load a b d else .load32 a b d), rest) := by
  have h : (0x84 + 8 * lo a).toNat / 64 = 2 ∧ (0x84 + 8 * lo a).toNat % 8 = 4 := by
    cases a <;> decide
  have hm := takeMem?_mem w a b d rest
  simp only [mem, List.cons_append] at hm ⊢
  rw [decodeLoad?, if_neg (by rw [h.1]; decide), if_pos h.2, decodeMem?, hm]
  cases w <;> rfl

theorem decodeIndexed?_loadIndexed (d b x : Register) (rest : List UInt8) :
    decodeIndexed? ⟨true, hi d, hi x, hi b⟩
        ((0x44 + 8 * lo d) :: (8 * lo x + lo b) :: 0x00 :: rest)
      = some (.loadIndexed d b x, rest) := by
  have hd : (0x44 + 8 * lo d).toNat / 64 = 1 ∧ (0x44 + 8 * lo d).toNat % 8 = 4
      ∧ register (hi d) ((0x44 + 8 * lo d).toNat / 8) = d := by
    cases d <;> decide
  have hs : (8 * lo x + lo b).toNat / 64 = 0
      ∧ register (hi b) (8 * lo x + lo b).toNat = b
      ∧ register (hi x) ((8 * lo x + lo b).toNat / 8) = x := by
    cases x <;> cases b <;> decide
  simp [decodeIndexed?, hd, hs, -UInt8.toNat_add]

theorem decode?_encode_append (i : Instr Int32) (rest : List UInt8) :
    decode? (i.encode ++ rest) = some (i, rest) := by
  cases i with
  | push r => cases r <;> rfl
  | pop r => cases r <;> rfl
  | mov d s => simp [encode, decode?_rex, decodeRex?, decodeRegs?, takeRegs?_regs]
  | mov32 d s => simp [encode, decode?_rex, decodeRex?, decodeRegs?, takeRegs?_regs]
  | movImm d w => cases d <;> simp [encode, decode?_rex, decodeRex?, decodeShort?, lo] <;> rfl
  | load d b disp => simp [encode, decode?_rex, decodeRex?, decodeLoad?_mem]
  | load32 d b disp => simp [encode, decode?_rex, decodeRex?, decodeLoad?_mem]
  | loadIndexed d b x =>
      have h : (0x44 + 8 * lo d).toNat / 64 = 1 := by cases d <;> decide
      simp [encode, decode?_rex, decodeRex?, decodeLoad?, h, decodeIndexed?_loadIndexed,
        -UInt8.toNat_add]
  | follow disp =>
      simp [encode, decode?, Rex.ofByte?, decodeRex?, decodeLoad?, decodeFollow?, takeDisp?_disp32]
  | dropStack n =>
      simp [encode, decode?, Rex.ofByte?, decodeRex?, decodeImm32?, takeDisp?_disp32]
  | shl r n => cases r <;> rfl
  | shr r n => cases r <;> rfl
  | or d s => simp [encode, decode?_rex, decodeRex?, decodeRegs?, takeRegs?_regs]
  | cmp a b => simp [encode, decode?_rex, decodeRex?, decodeRegs?, takeRegs?_regs]
  | cmp32Imm r imm =>
      have h : (0xf8 + lo r).toNat / 8 = 31 ∧ register (hi r) (0xf8 + lo r).toNat = r := by
        cases r <;> decide
      simp [encode, decode?_rex, decodeRex?, decodeImm32?, takeDisp?_disp32, h,
        -UInt8.toNat_add]
  | cmpMem b disp s => simp [encode, decode?_rex, decodeRex?, decodeMem?, takeMem?_mem]
  | test32 r => simp [encode, decode?_rex, decodeRex?, decodeTest?, takeRegs?_regs]
  | add32 d s => simp [encode, decode?_rex, decodeRex?, decodeRegs?, takeRegs?_regs]
  | sub32 d s => simp [encode, decode?_rex, decodeRex?, decodeRegs?, takeRegs?_regs]
  | jmp rel => simp [encode, decode?, takeDisp?_disp32]
  | jcc c rel => simp [encode, decode?, takeDisp?_disp32, Condition.ofByte?_byte]
  | jmpStub disp => simp [encode, decode?, takeDisp?_disp32]
  | ret => rfl

end InlineCache.X64.Instr
