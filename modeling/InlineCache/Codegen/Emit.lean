import InlineCache.Codegen.Snippet

/-!
# Writing code

`Emit` is the computation that writes an assembly. What was written before a failure stays.
-/

namespace InlineCache

open X64

/-- A computation that writes code. -/
abbrev Emit := EStateM EmitError Assembly

namespace Emit

def code (c : Snippet.Code) : Emit Unit :=
  modify (·.append c)

/-- Writes a snippet that may be refused. -/
def code? (c : Except EmitError Snippet.Code) : Emit Unit := do
  match c with
  | .ok c => code c
  | .error e => throw e

def newLabel : Emit Label := do
  let a ← get
  set { a with numLabels := a.numLabels + 1 }
  return a.numLabels

def bind (l : Label) : Emit Unit :=
  modify (·.push (.bind l))

/-- Loads a boxed value from the stack and unboxes it. -/
def unboxFromStack (offset : Nat) (dest : Register) (t : ValueType) : Emit Unit := do
  code (Snippet.loadFromStack dest offset)
  code? (Snippet.unbox dest dest t)

/-- The stack depth after a push of eight bytes. -/
def pushed (depth : Nat) : Emit Nat :=
  if depth + 8 < 0x100000000 then return depth + 8 else throw .stackDepth

/-- Brings back a word from the stack at the given depth: pops it if it is on top, else loads it.
Returns the depth afterwards. -/
def reload (dest : Register) (offset depth : Nat) : Emit Nat := do
  if offset = depth then
    code [.pop dest]
    if depth < 8 then throw .stackDepth
    return depth - 8
  else
    if depth < offset then throw .stackDepth
    code (Snippet.loadFromStack dest (depth - offset))
    return depth

end Emit
end InlineCache
