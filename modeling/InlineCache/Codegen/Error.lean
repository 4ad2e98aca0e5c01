import InlineCache.Codegen.Place
import InlineCache.X64.Instr

/-!
# What code generation refuses
-/

namespace InlineCache

open X64

/-- Why code cannot be generated. A program that a builder made can only lead to `stackDepth`. All
other causes come from misuse of the allocator, or from an instruction that wants more registers
than there are. -/
inductive EmitError where
  /-- The current instruction holds every register that is left. -/
  | outOfRegisters (instruction : Nat)
  | cannotUnbox (t : ValueType)
  | cannotBox (t : ValueType)
  /-- A test for a type asks for "equal" or "not equal" only. -/
  | notAnEquality (c : Condition)
  | notATagRange (c : Condition)
  | inputNotBoxed (index : Nat) (p : Place)
  | notInRegister (index : Nat) (p : Place)
  | registerInUse (r : Register) (instruction : Nat)
  | registerNotHeld (r : Register)
  /-- A register was given back that is free. -/
  | registerFree (r : Register)
  | uninitialized (index : Nat)
  | definedTwice (index : Nat)
  | noOperand (index : Nat)
  | badOrigin (index : Nat) (p : Place)
  | inputUninitialized (index : Nat)
  /-- The stack depth leaves the range of 32-bit numbers. -/
  | stackDepth

namespace EmitError

/-- The text of the cause, for those that have one. -/
def message? : EmitError → Option String
  | .outOfRegisters n =>
    some ("no spillable register left at CacheIR instruction " ++ Text.decimal n)
  | .cannotUnbox t => some ("cannot unbox a " ++ t.name ++ " into a payload register")
  | .cannotBox t => some ("cannot box a " ++ t.name ++ " payload")
  | .notAnEquality _ => none
  | .notATagRange c => some ("tag range test does not take " ++ c.name)
  | .inputNotBoxed index p =>
    some ("input " ++ Text.decimal index
      ++ " must arrive boxed in a register or as a constant, not " ++ p.text)
  | .notInRegister index p =>
    some ("operand " ++ Text.decimal index ++ " is not in a register (" ++ p.text ++ ")")
  | .registerInUse r n => some (r.name ++ " is already used by instruction " ++ Text.decimal n)
  | .registerNotHeld r => some (r.name ++ " is neither free nor held by an operand")
  | .registerFree _ => none
  | .uninitialized index => some ("use of uninitialized operand %" ++ Text.decimal index)
  | .definedTwice index => some ("operand %" ++ Text.decimal index ++ " defined twice")
  | .noOperand _ => none
  | .badOrigin index p =>
    some ("input " ++ Text.decimal index ++ " cannot originate in " ++ p.text)
  | .inputUninitialized index =>
    some ("input " ++ Text.decimal index ++ " is uninitialized at a guard")
  | .stackDepth => none

end EmitError
end InlineCache
