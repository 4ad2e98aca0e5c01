import InlineCache.Text.Number
import InlineCache.Text.Quoted

/-!
# Listing trees

What a listing says before any name in it is looked up.
-/

namespace InlineCache.Listing

/-- An argument as it is written. -/
inductive TreeArg where
  /-- `%3` -/
  | operand (id : Nat)
  /-- `#1` -/
  | field (index : Nat)
  | bool (b : Bool)
  | int (i : Int)
  | name (s : String)
deriving DecidableEq

/-- An argument as diagnostics show it. -/
def TreeArg.text : TreeArg → String
  | .operand id => "Operand(" ++ Text.decimal id ++ ")"
  | .field index => "Field(" ++ Text.decimal index ++ ")"
  | .bool b => "Bool(" ++ Text.truth b ++ ")"
  | .int i => "Int(" ++ Text.signed i ++ ")"
  | .name s => "Name(" ++ Text.quoted s ++ ")"

/-- A line with an instruction. -/
structure TreeLine where
  /-- The operand on the left of `=`. -/
  defined : Option Nat
  op : String
  args : List TreeArg
deriving DecidableEq

/-- A line that declares a field. -/
structure TreeField where
  index : Nat
  type : String
  word : UInt64
deriving DecidableEq

/-- A whole listing. -/
structure Tree where
  kind : String
  inputs : List Nat
  lines : List TreeLine
  fields : List TreeField
deriving DecidableEq

end InlineCache.Listing
