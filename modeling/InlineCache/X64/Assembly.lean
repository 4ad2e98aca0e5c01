import InlineCache.X64.Instr

/-!
# Assembly

Code under construction: instructions whose branches name labels, and the places where labels are
bound. Laying it out turns every label into the displacement from the end of the branch to the
place of the label. That fails if a label is bound twice, if a branch names a label that is bound
nowhere, or if a displacement needs more than 32 bits; a label that nothing names need not be
bound.
-/

namespace InlineCache.X64

/-- A place in code that branches can name. -/
abbrev Label := Nat

/-- An instruction, or a label bound between two instructions. -/
inductive Item where
  | instr (i : Instr Label)
  | bind (l : Label)
deriving DecidableEq

namespace Item

/-- Bytes that the item takes. -/
def size : Item → Nat
  | .instr i => i.size
  | .bind _ => 0

/-- Bytes that items take one after the other. -/
def totalSize : List Item → Nat
  | [] => 0
  | i :: is => i.size + totalSize is

/-- The places of the labels in a list of items that starts at `start`. -/
def bindings (start : Nat) : List Item → List (Label × Nat)
  | [] => []
  | .bind l :: is => (l, start) :: bindings start is
  | .instr i :: is => bindings (start + i.size) is

/-- A distance as the displacement of a branch, if 32 bits hold it. -/
def displacement? (distance : Int) : Option Int32 :=
  if -0x80000000 ≤ distance ∧ distance < 0x80000000 then some (Int32.ofInt distance) else none

/-- The items as instructions with displacements. `places` tells where labels are bound. -/
def resolve? (places : List (Label × Nat)) (start : Nat) : List Item → Option (List (Instr Int32))
  | [] => some []
  | .bind _ :: is => resolve? places start is
  | .instr i :: is => do
    let next := start + i.size
    let j ← i.retarget? fun l => (places.lookup l).bind fun place => displacement? (place - next)
    let js ← resolve? places next is
    return j :: js

end Item

/-- Code under construction. -/
structure Assembly where
  items : Array Item := #[]
  /-- Labels that have been made so far; they are numbered from zero. -/
  numLabels : Nat := 0

/-- The labels of an assembly do not fit together, or lie too far apart. -/
structure BadLabels where

namespace Assembly

def size (a : Assembly) : Nat :=
  Item.totalSize a.items.toList

def push (a : Assembly) (i : Item) : Assembly :=
  { a with items := a.items.push i }

def append (a : Assembly) (is : List (Instr Label)) : Assembly :=
  { a with items := a.items ++ (is.map Item.instr).toArray }

/-- Lays the code out. -/
def layOut (a : Assembly) : Except BadLabels (List (Instr Int32)) :=
  let places := Item.bindings 0 a.items.toList
  if (places.map Prod.fst).Nodup then
    match Item.resolve? places 0 a.items.toList with
    | some is => .ok is
    | none => .error ⟨⟩
  else .error ⟨⟩

/-- The bytes of the code. -/
def finish (a : Assembly) : Except BadLabels (List UInt8) := do
  let is ← a.layOut
  return is.flatMap Instr.encode

end Assembly
end InlineCache.X64
