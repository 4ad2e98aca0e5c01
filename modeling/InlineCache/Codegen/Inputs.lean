import InlineCache.Codegen.Engine
import InlineCache.Codegen.Place

/-!
# Inputs of a stub

Each input of a stub arrives boxed in its own register, or is known when the stub is compiled.
There are no more inputs than registers for them.
-/

namespace InlineCache

open X64

/-- How one input reaches the stub. -/
inductive InputSource where
  | register
  | constant (v : Value)
deriving DecidableEq

/-- The place where an input with its own register starts. -/
def InputSource.place (r : Register) : InputSource → Place
  | .register => .valueReg r
  | .constant v => .constant v

/-- How the inputs of a stub reach it. -/
structure Inputs where
  sources : List InputSource
  length_le : sources.length ≤ inputRegisters.length

/-- More inputs than registers for them. -/
structure TooManyInputs where

def TooManyInputs.message (_ : TooManyInputs) : String :=
  "at most two stub inputs"

namespace Inputs

def ofSources (sources : List InputSource) : Except TooManyInputs Inputs :=
  if h : sources.length ≤ inputRegisters.length then .ok ⟨sources, h⟩ else .error ⟨⟩

/-- Every input in its register. -/
def registers (n : Nat) (h : n ≤ 2) : Inputs where
  sources := List.replicate n .register
  length_le := by simpa [inputRegisters] using h

/-- Where the inputs are when the stub is entered. -/
def places (i : Inputs) : List Place :=
  List.zipWith InputSource.place inputRegisters i.sources

/-- Whether an input arrives in its register. -/
def inRegister (i : Inputs) (index : Nat) : Bool :=
  i.sources[index]? == some .register

end Inputs
end InlineCache
