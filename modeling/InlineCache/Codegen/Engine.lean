import InlineCache.X64.Register

/-!
# Engines and register roles

Two engines run stubs. They differ in the registers that a stub may use. The inputs arrive boxed
in `inputRegisters`, `stubRegister` holds the header of the running stub, the result is returned
in `outputRegister`, and `scratchRegister` is free for short code sequences and never allocated.
-/

namespace InlineCache

open X64

/-- An engine that enters stubs. -/
inductive Engine where
  | baseline
  | ionSharedIC
deriving DecidableEq

namespace Engine

def all : List Engine := [.baseline, .ionSharedIC]

def name : Engine → String
  | .baseline => "Baseline"
  | .ionSharedIC => "IonSharedIC"

def ofName? (s : String) : Option Engine :=
  all.find? fun e => e.name == s

/-- The registers that a stub may use. -/
def allocatable : Engine → RegisterSet
  | .baseline => .ofList [.rax, .rcx, .rsi, .rdi, .r8, .r9, .r10]
  | .ionSharedIC => .ofList [.rax, .rcx, .rsi, .rdi]

end Engine

def inputRegisters : List Register := [.rdi, .rsi]

def stubRegister : Register := .rdx

def outputRegister : Register := .rax

def scratchRegister : Register := .r11

end InlineCache
