/-!
# Registers

The general purpose registers and sets of them. A set is a word of 16 bits, one for each register;
`RegisterSet.toList` shows its members from the lowest number to the highest.
-/

namespace InlineCache.X64

/-- A general purpose register. -/
inductive Register where
  | rax
  | rcx
  | rdx
  | rbx
  | rsp
  | rbp
  | rsi
  | rdi
  | r8
  | r9
  | r10
  | r11
  | r12
  | r13
  | r14
  | r15
deriving DecidableEq

namespace Register

/-- Every register, in the order of the numbers. -/
def all : List Register :=
  [.rax, .rcx, .rdx, .rbx, .rsp, .rbp, .rsi, .rdi, .r8, .r9, .r10, .r11, .r12, .r13, .r14, .r15]

/-- The number of a register in machine code. -/
def code : Register → Fin 16
  | .rax => 0
  | .rcx => 1
  | .rdx => 2
  | .rbx => 3
  | .rsp => 4
  | .rbp => 5
  | .rsi => 6
  | .rdi => 7
  | .r8 => 8
  | .r9 => 9
  | .r10 => 10
  | .r11 => 11
  | .r12 => 12
  | .r13 => 13
  | .r14 => 14
  | .r15 => 15

/-- The register with a number. -/
def ofCode (n : Fin 16) : Register :=
  all.get n

@[simp]
theorem ofCode_code (r : Register) : ofCode r.code = r := by
  cases r <;> rfl

@[simp]
theorem code_ofCode (n : Fin 16) : (ofCode n).code = n := by
  revert n
  decide

theorem code_injective {r s : Register} (h : r.code = s.code) : r = s := by
  rw [← ofCode_code r, h, ofCode_code]

@[simp]
theorem code_inj {r s : Register} : r.code = s.code ↔ r = s :=
  ⟨code_injective, fun h => h ▸ rfl⟩

theorem mem_all (r : Register) : r ∈ all := by
  cases r <;> decide

def name : Register → String
  | .rax => "rax"
  | .rcx => "rcx"
  | .rdx => "rdx"
  | .rbx => "rbx"
  | .rsp => "rsp"
  | .rbp => "rbp"
  | .rsi => "rsi"
  | .rdi => "rdi"
  | .r8 => "r8"
  | .r9 => "r9"
  | .r10 => "r10"
  | .r11 => "r11"
  | .r12 => "r12"
  | .r13 => "r13"
  | .r14 => "r14"
  | .r15 => "r15"

def ofName? (s : String) : Option Register :=
  all.find? fun r => r.name == s

end Register

/-- A set of registers. -/
structure RegisterSet where
  bits : BitVec 16
deriving DecidableEq

namespace RegisterSet

def empty : RegisterSet := ⟨0⟩

def contains (s : RegisterSet) (r : Register) : Bool :=
  s.bits.getLsbD r.code

def insert (s : RegisterSet) (r : Register) : RegisterSet :=
  ⟨s.bits ||| BitVec.twoPow 16 r.code⟩

def erase (s : RegisterSet) (r : Register) : RegisterSet :=
  ⟨s.bits &&& ~~~BitVec.twoPow 16 r.code⟩

def ofList (rs : List Register) : RegisterSet :=
  rs.foldl insert empty

/-- The members, from the lowest number to the highest. -/
def toList (s : RegisterSet) : List Register :=
  Register.all.filter s.contains

def isEmpty (s : RegisterSet) : Bool :=
  s.bits == 0

def size (s : RegisterSet) : Nat :=
  s.toList.length

/-- The member with the highest number. -/
def highest? (s : RegisterSet) : Option Register :=
  Register.all.reverse.find? s.contains

/-- Removes and returns the member with the highest number. -/
def takeHighest? (s : RegisterSet) : Option (Register × RegisterSet) :=
  s.highest?.map fun r => (r, s.erase r)

def text (s : RegisterSet) : String :=
  "\x7b" ++ ", ".intercalate (s.toList.map Register.name) ++ "\x7d"

@[simp]
theorem contains_empty (r : Register) : empty.contains r = false := by
  simp [empty, contains]

@[simp]
theorem contains_insert (s : RegisterSet) (r t : Register) :
    (s.insert r).contains t = (s.contains t || decide (r = t)) := by
  simp [insert, contains, Fin.val_inj, eq_comm]

@[simp]
theorem contains_erase (s : RegisterSet) (r t : Register) :
    (s.erase r).contains t = (s.contains t && !decide (r = t)) := by
  simp [erase, contains, Fin.val_inj, eq_comm]

theorem mem_toList (s : RegisterSet) (r : Register) : r ∈ s.toList ↔ s.contains r = true := by
  simp [toList, Register.mem_all]

end RegisterSet
end InlineCache.X64
