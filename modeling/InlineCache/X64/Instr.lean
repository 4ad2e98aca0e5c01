import InlineCache.Word.Bytes
import InlineCache.X64.Register

/-!
# Machine instructions

The instructions that stubs are made of, and their bytes. A branch carries its target as a
parameter of the type: a label while code is being written, a displacement once it is laid out.
The size of an instruction does not depend on the target.
-/

namespace InlineCache.X64

/-- What a conditional branch tests. -/
inductive Condition where
  | equal
  | notEqual
  | above
  | belowOrEqual
  | overflow
  | signed
deriving DecidableEq

namespace Condition

def all : List Condition :=
  [.equal, .notEqual, .above, .belowOrEqual, .overflow, .signed]

def name : Condition → String
  | .equal => "Equal"
  | .notEqual => "NotEqual"
  | .above => "Above"
  | .belowOrEqual => "BelowOrEqual"
  | .overflow => "Overflow"
  | .signed => "Signed"

def ofName? (s : String) : Option Condition :=
  all.find? fun c => c.name == s

/-- The second byte of the branch. -/
def byte : Condition → UInt8
  | .equal => 0x84
  | .notEqual => 0x85
  | .above => 0x87
  | .belowOrEqual => 0x86
  | .overflow => 0x80
  | .signed => 0x88

def ofByte? (b : UInt8) : Option Condition :=
  all.find? fun c => c.byte == b

theorem ofByte?_byte (c : Condition) : ofByte? c.byte = some c := by
  cases c <;> rfl

end Condition

/-- An instruction whose branches name targets of type `τ`. Registers have 64 bits unless the name
says 32; results of 32 bits clear the upper half. -/
inductive Instr (τ : Type) where
  | push (r : Register)
  | pop (r : Register)
  | mov (dest src : Register)
  | mov32 (dest src : Register)
  | movImm (dest : Register) (w : UInt64)
  /-- `mov dest, [base + disp]` -/
  | load (dest base : Register) (disp : Int32)
  | load32 (dest base : Register) (disp : Int32)
  /-- `mov dest, [base + index]` -/
  | loadIndexed (dest base index : Register)
  /-- `mov rdx, [rdx + disp]` -/
  | follow (disp : Int32)
  /-- `add rsp, n` -/
  | dropStack (n : Int32)
  | shl (r : Register) (n : UInt8)
  | shr (r : Register) (n : UInt8)
  | or (dest src : Register)
  | cmp (a b : Register)
  | cmp32Imm (r : Register) (imm : Int32)
  /-- `cmp [base + disp], src` -/
  | cmpMem (base : Register) (disp : Int32) (src : Register)
  /-- `test r, r` on 32 bits -/
  | test32 (r : Register)
  | add32 (dest src : Register)
  | sub32 (dest src : Register)
  | jmp (target : τ)
  | jcc (c : Condition) (target : τ)
  /-- `jmp [rdx + disp]` -/
  | jmpStub (disp : Int32)
  | ret
deriving DecidableEq

namespace Instr

/-! ## Bytes -/

/-- The three low bits of a register number. -/
def lo (r : Register) : UInt8 :=
  (r.code.val % 8).toUInt8

/-- The high bit of a register number. -/
def hi (r : Register) : Bool :=
  8 ≤ r.code.val

/-- The byte that selects 64-bit operands and widens three register numbers to four bits. -/
def rex (w r x b : Bool) : UInt8 :=
  (0x40 + 8 * w.toNat + 4 * r.toNat + 2 * x.toNat + b.toNat).toUInt8

/-- The operand byte for two registers. -/
def regs (reg rm : Register) : UInt8 :=
  0xc0 + 8 * lo reg + lo rm

def disp32 (d : Int32) : List UInt8 :=
  Word.bytes32 d.toUInt32

/-- The operand bytes for a register and `[base + disp]`. -/
def mem (reg base : Register) (disp : Int32) : List UInt8 :=
  (0x84 + 8 * lo reg) :: (0x20 + lo base) :: disp32 disp

/-- The bytes of an instruction that is laid out. -/
def encode : Instr Int32 → List UInt8
  | .push r => [rex false false false (hi r), 0x50 + lo r]
  | .pop r => [rex false false false (hi r), 0x58 + lo r]
  | .mov d s => [rex true (hi s) false (hi d), 0x89, regs s d]
  | .mov32 d s => [rex false (hi s) false (hi d), 0x89, regs s d]
  | .movImm d w => rex true false false (hi d) :: (0xb8 + lo d) :: Word.bytes64 w
  | .load d b disp => rex true (hi d) false (hi b) :: 0x8b :: mem d b disp
  | .load32 d b disp => rex false (hi d) false (hi b) :: 0x8b :: mem d b disp
  | .loadIndexed d b x =>
    [rex true (hi d) (hi x) (hi b), 0x8b, 0x44 + 8 * lo d, 8 * lo x + lo b, 0x00]
  | .follow disp => 0x48 :: 0x8b :: 0x92 :: disp32 disp
  | .dropStack n => 0x48 :: 0x81 :: 0xc4 :: disp32 n
  | .shl r n => [rex true false false (hi r), 0xc1, 0xe0 + lo r, n]
  | .shr r n => [rex true false false (hi r), 0xc1, 0xe8 + lo r, n]
  | .or d s => [rex true (hi s) false (hi d), 0x09, regs s d]
  | .cmp a b => [rex true (hi a) false (hi b), 0x3b, regs a b]
  | .cmp32Imm r imm => rex false false false (hi r) :: 0x81 :: (0xf8 + lo r) :: disp32 imm
  | .cmpMem b disp s => rex true (hi s) false (hi b) :: 0x39 :: mem s b disp
  | .test32 r => [rex false (hi r) false (hi r), 0x85, regs r r]
  | .add32 d s => [rex false (hi s) false (hi d), 0x01, regs s d]
  | .sub32 d s => [rex false (hi s) false (hi d), 0x29, regs s d]
  | .jmp rel => 0xe9 :: disp32 rel
  | .jcc c rel => 0x0f :: c.byte :: disp32 rel
  | .jmpStub disp => 0xff :: 0xa2 :: disp32 disp
  | .ret => [0xc3]

/-! ## Targets -/

variable {τ σ : Type}

/-- The same instruction with its target replaced, if `f` knows a replacement. -/
def retarget? (f : τ → Option σ) : Instr τ → Option (Instr σ)
  | .push r => some (.push r)
  | .pop r => some (.pop r)
  | .mov d s => some (.mov d s)
  | .mov32 d s => some (.mov32 d s)
  | .movImm d w => some (.movImm d w)
  | .load d b disp => some (.load d b disp)
  | .load32 d b disp => some (.load32 d b disp)
  | .loadIndexed d b x => some (.loadIndexed d b x)
  | .follow disp => some (.follow disp)
  | .dropStack n => some (.dropStack n)
  | .shl r n => some (.shl r n)
  | .shr r n => some (.shr r n)
  | .or d s => some (.or d s)
  | .cmp a b => some (.cmp a b)
  | .cmp32Imm r imm => some (.cmp32Imm r imm)
  | .cmpMem b disp s => some (.cmpMem b disp s)
  | .test32 r => some (.test32 r)
  | .add32 d s => some (.add32 d s)
  | .sub32 d s => some (.sub32 d s)
  | .jmp t => (f t).map .jmp
  | .jcc c t => (f t).map (.jcc c)
  | .jmpStub disp => some (.jmpStub disp)
  | .ret => some .ret

/-- The number of bytes of an instruction. -/
def size : Instr τ → Nat
  | .push _ => 2
  | .pop _ => 2
  | .mov _ _ => 3
  | .mov32 _ _ => 3
  | .movImm _ _ => 10
  | .load _ _ _ => 8
  | .load32 _ _ _ => 8
  | .loadIndexed _ _ _ => 5
  | .follow _ => 7
  | .dropStack _ => 7
  | .shl _ _ => 4
  | .shr _ _ => 4
  | .or _ _ => 3
  | .cmp _ _ => 3
  | .cmp32Imm _ _ => 7
  | .cmpMem _ _ _ => 8
  | .test32 _ => 3
  | .add32 _ _ => 3
  | .sub32 _ _ => 3
  | .jmp _ => 5
  | .jcc _ _ => 6
  | .jmpStub _ => 6
  | .ret => 1

theorem length_encode (i : Instr Int32) : i.encode.length = i.size := by
  cases i <;> rfl

theorem size_pos (i : Instr τ) : 0 < i.size := by
  cases i <;> simp [size]

theorem size_retarget? {f : τ → Option σ} {i : Instr τ} {j : Instr σ}
    (h : i.retarget? f = some j) : j.size = i.size := by
  cases i with
  | jmp t =>
      obtain ⟨_, _, rfl⟩ := Option.map_eq_some_iff.mp h
      rfl
  | jcc c t =>
      obtain ⟨_, _, rfl⟩ := Option.map_eq_some_iff.mp h
      rfl
  | _ =>
      cases h
      rfl

end Instr
end InlineCache.X64
