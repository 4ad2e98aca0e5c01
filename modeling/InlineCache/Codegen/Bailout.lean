import InlineCache.Codegen.Emit

/-!
# Bailouts

A guard that fails branches to a bailout: code that puts every input back where the stub received
it and then leaves the stub. A bailout is determined by where the inputs are and how deep the stack
is at the guard, so guards with the same snapshot can share one.

Putting the inputs back is a parallel move, done one input after the other. Before a register is
written, every later input that is still in it is pushed, which breaks cycles among the registers.
-/

namespace InlineCache

open X64

/-- Where the inputs are when a guard fails, and the label of the code that puts them back. -/
structure Bailout where
  inputs : List Place
  /-- Bytes on the stack. -/
  depth : Nat
  label : Label
deriving DecidableEq

namespace Bailout

/-- Whether the code of the bailout serves this snapshot. -/
def serves (b : Bailout) (inputs : List Place) (depth : Nat) : Bool :=
  b.depth == depth && b.inputs == inputs

/-- Pushes every place in the list that occupies `r` and moves it to the stack. Returns the new
places and the new depth. -/
def evict (r : Register) (depth : Nat) : List Place → Emit (List Place × Nat)
  | [] => return ([], depth)
  | p :: ps => do
    if p.register? = some r then
      Emit.code [.push r]
      let depth ← Emit.pushed depth
      let moved :=
        match p with
        | .payloadReg _ t => Place.payloadStack depth t
        | _ => Place.valueStack depth
      let (ps, depth) ← evict r depth ps
      return (moved :: ps, depth)
    else
      let (ps, depth) ← evict r depth ps
      return (p :: ps, depth)

/-- Writes the boxed value of input `index` into a register. Returns the depth afterwards. -/
def restore (index : Nat) (dest : Register) (depth : Nat) : Place → Emit Nat
  | .valueReg r => do
    Emit.code (Snippet.move dest r)
    return depth
  | .payloadReg r t => do
    Emit.code? (Snippet.tag t r dest)
    return depth
  | .valueStack offset => Emit.reload dest offset depth
  | .payloadStack offset t => do
    let depth ← Emit.reload dest offset depth
    Emit.code? (Snippet.tag t dest dest)
    return depth
  | .constant v => do
    Emit.code [.movImm dest v.bits]
    return depth
  | .uninitialized => throw (.inputUninitialized index)

/-- Puts inputs back where they came from, counted from `index`. Constants did not come from a
register and are left alone. Returns the depth afterwards. -/
def restoreAll : (origins inputs : List Place) → (index depth : Nat) → Emit Nat
  | _, [], _, depth => return depth
  | [], _ :: _, index, _ => throw (.noOperand index)
  | o :: os, p :: ps, index, depth => do
    match o with
    | .constant _ => restoreAll os ps (index + 1) depth
    | .valueReg dest =>
      let (ps, depth) ← evict dest depth ps
      let depth ← restore index dest depth p
      restoreAll os ps (index + 1) depth
    | o => throw (.badOrigin index o)

/-- The code of a bailout up to the point where all inputs are back. Returns how many bytes are
still on the stack. -/
def emit (origins : List Place) (b : Bailout) : Emit Nat := do
  Emit.bind b.label
  restoreAll origins b.inputs 0 b.depth

/-- One line that shows the snapshot. -/
def line (index : Nat) (b : Bailout) : String :=
  let inputs := b.inputs.mapIdx fun n p => "%" ++ Text.decimal n ++ "=" ++ p.text
  "failure " ++ Text.decimal index ++ ": pushed=" ++ Text.decimal b.depth ++ " "
    ++ " ".intercalate inputs ++ "\n"

end Bailout
end InlineCache
