import InlineCache.Word.Memory
import InlineCache.X64.Decode

/-!
# The machine

Registers, memory and flags, and what each instruction does to them. Flags are known right after a
comparison, a test, an addition or a subtraction; after other arithmetic they are taken to be
unknown, and a branch on unknown flags is stuck. Code runs until it returns or jumps through the
stub register.
-/

namespace InlineCache.X64

/-- The flags that branches read. -/
structure Flags where
  zero : Bool
  carry : Bool
  sign : Bool
  overflow : Bool
deriving DecidableEq

namespace Flags

/-- Flags of `a - b` on 64 bits. -/
def compare64 (a b : UInt64) : Flags where
  zero := a == b
  carry := a < b
  sign := (a - b).toInt64 < 0
  overflow := decide (a.toInt64.toInt - b.toInt64.toInt ≠ (a - b).toInt64.toInt)

/-- Flags of `a - b` on 32 bits. -/
def compare32 (a b : UInt32) : Flags where
  zero := a == b
  carry := a < b
  sign := (a - b).toInt32 < 0
  overflow := decide (a.toInt32.toInt - b.toInt32.toInt ≠ (a - b).toInt32.toInt)

/-- Flags of `a + b` on 32 bits. -/
def add32 (a b : UInt32) : Flags where
  zero := a + b == 0
  carry := a + b < a
  sign := (a + b).toInt32 < 0
  overflow := decide (a.toInt32.toInt + b.toInt32.toInt ≠ (a + b).toInt32.toInt)

/-- Flags of a result of 32 bits that neither carries nor overflows. -/
def logic32 (a : UInt32) : Flags where
  zero := a == 0
  carry := false
  sign := a.toInt32 < 0
  overflow := false

/-- Whether a condition holds. -/
def meets (f : Flags) : Condition → Bool
  | .equal => f.zero
  | .notEqual => !f.zero
  | .above => !f.carry && !f.zero
  | .belowOrEqual => f.carry || f.zero
  | .overflow => f.overflow
  | .signed => f.sign

end Flags

/-- The state of the machine. -/
structure Machine where
  regs : Vector UInt64 16
  mem : Memory
  /-- `none` while the flags are unknown. -/
  flags : Option Flags

namespace Machine

def reg (m : Machine) (r : Register) : UInt64 :=
  m.regs[r.code]

def setReg (m : Machine) (r : Register) (w : UInt64) : Machine :=
  { m with regs := m.regs.set r.code w }

/-- The low half of a register. -/
def reg32 (m : Machine) (r : Register) : UInt32 :=
  (m.reg r).toUInt32

/-- Sets the low half of a register and clears the upper half. -/
def setReg32 (m : Machine) (r : Register) (w : UInt32) : Machine :=
  m.setReg r w.toUInt64

@[simp]
theorem reg_setReg (m : Machine) (r s : Register) (w : UInt64) :
    (m.setReg r w).reg s = if r = s then w else m.reg s := by
  by_cases h : r = s
  · subst h
    simp [reg, setReg]
  · have h' : (r.code : Nat) ≠ s.code := fun e => h (Register.code_injective (Fin.ext e))
    simp [reg, setReg, h, h']

@[simp]
theorem mem_setReg (m : Machine) (r : Register) (w : UInt64) : (m.setReg r w).mem = m.mem := rfl

@[simp]
theorem flags_setReg (m : Machine) (r : Register) (w : UInt64) :
    (m.setReg r w).flags = m.flags := rfl

/-- The address `base + disp`. -/
def address (m : Machine) (base : Register) (disp : Int32) : UInt64 :=
  m.reg base + disp.toInt64.toUInt64

/-- What the index of an address contributes. The number of `rsp` means "no index". -/
def index (m : Machine) : Register → UInt64
  | .rsp => 0
  | r => m.reg r

end Machine

/-- Where control goes after an instruction. -/
inductive Flow (τ : Type) where
  | next
  /-- To the target of the branch. -/
  | branch (target : τ)
  | ret
  /-- To an address outside the code. -/
  | leave (target : UInt64)

/-- What an instruction does. A branch on unknown flags has no meaning. -/
def Instr.exec {τ : Type} (m : Machine) : Instr τ → Option (Machine × Flow τ)
  | .push r =>
    let sp := m.reg .rsp - 8
    let m' := { m with mem := m.mem.write64 sp (m.reg r) }
    some (m'.setReg .rsp sp, .next)
  | .pop r =>
    let sp := m.reg .rsp
    some ((m.setReg .rsp (sp + 8)).setReg r (m.mem.read64 sp), .next)
  | .mov d s => some (m.setReg d (m.reg s), .next)
  | .mov32 d s => some (m.setReg32 d (m.reg32 s), .next)
  | .movImm d w => some (m.setReg d w, .next)
  | .load d b disp => some (m.setReg d (m.mem.read64 (m.address b disp)), .next)
  | .load32 d b disp => some (m.setReg32 d (m.mem.read32 (m.address b disp)), .next)
  | .loadIndexed d b x => some (m.setReg d (m.mem.read64 (m.reg b + m.index x)), .next)
  | .follow disp => some (m.setReg .rdx (m.mem.read64 (m.address .rdx disp)), .next)
  | .dropStack n =>
    let m' := { m with flags := none }
    some (m'.setReg .rsp (m.address .rsp n), .next)
  | .shl r n =>
    let m' := { m with flags := none }
    some (m'.setReg r (m.reg r <<< n.toUInt64), .next)
  | .shr r n =>
    let m' := { m with flags := none }
    some (m'.setReg r (m.reg r >>> n.toUInt64), .next)
  | .or d s =>
    let m' := { m with flags := none }
    some (m'.setReg d (m.reg d ||| m.reg s), .next)
  | .cmp a b => some ({ m with flags := some (.compare64 (m.reg a) (m.reg b)) }, .next)
  | .cmp32Imm r imm => some ({ m with flags := some (.compare32 (m.reg32 r) imm.toUInt32) }, .next)
  | .cmpMem b disp s =>
    some ({ m with flags := some (.compare64 (m.mem.read64 (m.address b disp)) (m.reg s)) }, .next)
  | .test32 r => some ({ m with flags := some (.logic32 (m.reg32 r)) }, .next)
  | .add32 d s =>
    let m' := { m with flags := some (.add32 (m.reg32 d) (m.reg32 s)) }
    some (m'.setReg32 d (m.reg32 d + m.reg32 s), .next)
  | .sub32 d s =>
    let m' := { m with flags := some (.compare32 (m.reg32 d) (m.reg32 s)) }
    some (m'.setReg32 d (m.reg32 d - m.reg32 s), .next)
  | .jmp target => some (m, .branch target)
  | .jcc c target => m.flags.map fun f => (m, if f.meets c then .branch target else .next)
  | .jmpStub disp => some (m, .leave (m.mem.read64 (m.address .rdx disp)))
  | .ret => some (m, .ret)

/-- How a run of code ends. -/
inductive Outcome where
  | returned (m : Machine)
  /-- Control left for an address outside the code. -/
  | left (target : UInt64) (m : Machine)
  /-- There is no instruction, or it has no meaning. -/
  | stuck (m : Machine)

/-- The instruction at an offset of a byte string, and the offset of the one after it. -/
def fetch? (bytes : List UInt8) (pc : Nat) : Option (Instr Int32 × Nat) :=
  (Instr.decode? (bytes.drop pc)).map fun (i, rest) => (i, bytes.length - rest.length)

/-- Runs code from an offset, at most `limit` instructions. `fetch` finds the instruction at an
offset and the offset of the one after it. -/
def runFrom (fetch : Nat → Option (Instr Int32 × Nat)) :
    (limit : Nat) → (pc : Nat) → Machine → Outcome
  | 0, _, m => .stuck m
  | limit + 1, pc, m =>
    match fetch pc with
    | none => .stuck m
    | some (i, next) =>
      match i.exec m with
      | none => .stuck m
      | some (m, .next) => runFrom fetch limit next m
      | some (m, .branch disp) =>
        let target := (next : Int) + disp.toInt
        if target < 0 then .stuck m else runFrom fetch limit target.toNat m
      | some (m, .ret) => .returned m
      | some (m, .leave target) => .left target m

/-- Runs code from its start. Stubs only branch forward, so the number of bytes bounds the number
of instructions that run. -/
def run (bytes : List UInt8) (m : Machine) : Outcome :=
  runFrom (fetch? bytes) bytes.length 0 m

end InlineCache.X64
