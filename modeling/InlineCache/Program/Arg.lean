import InlineCache.Heap.ClassKind
import InlineCache.Program.Op

/-!
# Arguments

What a caller hands over to append an instruction, and the check of such arguments against the
schema of the operation.
-/

namespace InlineCache

/-- The number of an operand. Inputs come first, then every operand that is defined. -/
structure OperandId where
  index : Nat
deriving DecidableEq

namespace OperandId

def text (x : OperandId) : String :=
  "%" ++ Text.decimal x.index

end OperandId

/-- An operand together with the type that its readers expect. -/
structure TypedOperand where
  id : OperandId
  type : ValueType

namespace TypedOperand

def text (x : TypedOperand) : String :=
  x.id.text ++ ":" ++ x.type.name

end TypedOperand

/-- One argument that a caller supplies. -/
inductive Arg where
  | operand (x : OperandId)
  | classKind (c : ClassKind)
  | bool (b : Bool)
  | int32 (i : Int32)
  | field (f : Field)
deriving DecidableEq

namespace Arg

def text : Arg → String
  | .operand x => "Operand(OperandId(" ++ Text.decimal x.index ++ "))"
  | .classKind c => "Class(" ++ c.name ++ ")"
  | .bool b => "Bool(" ++ Text.truth b ++ ")"
  | .int32 i => "Int32(" ++ Text.signed i.toInt ++ ")"
  | .field f => "Field(" ++ f.text ++ ")"

end Arg

/-- Whether an argument can stand at a place of the schema. -/
def ArgKind.admits : ArgKind → Arg → Bool
  | .use, .operand _ => true
  | .classKind, .classKind _ => true
  | .bool, .bool _ => true
  | .int32, .int32 _ => true
  | .field t, .field f => f.type == t
  | _, _ => false

/-- Why arguments do not match a schema. -/
inductive SchemaError where
  | count (op : Op) (want got : Nat)
  | mismatch (op : Op) (index : Nat) (want : ArgKind) (got : Arg)

namespace SchemaError

def message : SchemaError → String
  | .count op want got =>
    op.name ++ " takes " ++ Text.decimal want ++ " argument(s), got " ++ Text.decimal got
  | .mismatch op index want got =>
    op.name ++ " argument " ++ Text.decimal index ++ ": expected " ++ want.text ++ ", got "
      ++ got.text

end SchemaError

namespace Op

/-- The first argument that cannot stand at its place, counting from `index`. -/
def firstMismatch (op : Op) : List ArgKind → List Arg → Nat → Except SchemaError Unit
  | k :: ks, a :: as, index =>
    if k.admits a then op.firstMismatch ks as (index + 1) else .error (.mismatch op index k a)
  | _, _, _ => .ok ()

/-- Accepts arguments that match the schema: first their number, then each in turn. -/
def checkArgs (op : Op) (args : List Arg) : Except SchemaError Unit :=
  if op.explicitArgs.length == args.length then op.firstMismatch op.explicitArgs args 0
  else .error (.count op op.explicitArgs.length args.length)

end Op
end InlineCache
