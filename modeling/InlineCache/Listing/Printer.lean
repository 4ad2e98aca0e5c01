import InlineCache.Program.Basic
import InlineCache.Program.Instruction

/-!
# Listings

The text form of a program: a header with its kind and inputs, one indented line for each
instruction, and the fields with their types and words.
-/

namespace InlineCache

/-- The text of one argument. -/
def ArgKind.argText : (k : ArgKind) → k.Decoded → String
  | .use, x => x.text
  | .define, x => x.text
  | .classKind, c => c.name
  | .bool, b => Text.truth b
  | .int32, i => Text.signed i.toInt
  | .field _, index => "#" ++ Text.decimal index

namespace Args

/-- The texts of the operands that are defined. -/
def definedTexts : (ks : List ArgKind) → Args ks → List String
  | [], _ => []
  | .define :: ks, (x, as) => x.text :: definedTexts ks as
  | .use :: ks, (_, as) => definedTexts ks as
  | .classKind :: ks, (_, as) => definedTexts ks as
  | .bool :: ks, (_, as) => definedTexts ks as
  | .int32 :: ks, (_, as) => definedTexts ks as
  | .field _ :: ks, (_, as) => definedTexts ks as

/-- The texts of everything else. -/
def explicitTexts : (ks : List ArgKind) → Args ks → List String
  | [], _ => []
  | k :: ks, (a, as) =>
    if k = .define then explicitTexts ks as else k.argText a :: explicitTexts ks as

end Args

namespace Instruction

/-- One line: the operand that is defined, the operation, the arguments. -/
def line (i : Instruction) : String :=
  let defined := Args.definedTexts i.op.schema i.args
  let explicit := Args.explicitTexts i.op.schema i.args
  "  " ++ (if defined.isEmpty then "" else ", ".intercalate defined ++ " = ") ++ i.op.name
    ++ (if explicit.isEmpty then "" else " " ++ ", ".intercalate explicit) ++ "\n"

end Instruction

namespace Field

def line (index : Nat) (f : Field) : String :=
  "  #" ++ Text.decimal index ++ " " ++ f.type.name ++ " " ++ Text.hexWord f.word ++ "\n"

end Field

namespace Program

def header (p : Program) : String :=
  let inputs := (List.range p.numInputs).map fun i => OperandId.text ⟨i⟩
  p.kind.name ++ "(" ++ ", ".intercalate inputs ++ ")\n"

def fieldLines (p : Program) : String :=
  if p.fields.isEmpty then ""
  else "fields:\n" ++ String.join (p.fields.toList.mapIdx Field.line)

/-- The listing, if the bytes can be decoded. -/
def listing (p : Program) : Except Malformed String := do
  let instructions ← Instruction.decode p.code.toList
  return p.header ++ String.join (instructions.map Instruction.line) ++ p.fieldLines

end Program
end InlineCache
