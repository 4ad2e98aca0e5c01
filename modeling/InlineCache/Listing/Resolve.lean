import InlineCache.Listing.Grammar
import InlineCache.Program.Basic

/-!
# From listings to programs

Resolving a listing looks up its names and appends its instructions one by one, so the program
that comes out is one that could have been built by hand. Fields are numbered anew in the order of
their uses; a field that two instructions use becomes two fields. Declared fields that no
instruction uses follow, in the order of their declared numbers.
-/

namespace InlineCache.Listing

/-- What is wrong with one line. -/
inductive LineError where
  | argCount (op : Op) (want got : Nat)
  | undefinedOperand (id : Nat)
  | undeclaredField (index : Nat)
  | unknownClass (name : String)
  | int32Range (i : Int)
  | mismatch (want : ArgKind) (got : TreeArg)
  | schema (e : SchemaError)
  | tooManyOperands
  | tooManyFields
  | wrongDefinition (want : Nat) (got : OperandId)
  | noDefinition (op : Op) (want : Nat)
  | missingDefinition (op : Op) (got : OperandId)
  /-- The instruction could not be appended. -/
  | build (e : BuildError)

namespace LineError

def message : LineError → String
  | .argCount op want got => (SchemaError.count op want got).message
  | .undefinedOperand id => "%" ++ Text.decimal id ++ " is not defined"
  | .undeclaredField index => "#" ++ Text.decimal index ++ " is not declared"
  | .unknownClass name => "unknown class " ++ name
  | .int32Range i => Text.signed i ++ " does not fit in int32"
  | .mismatch want got => "expected " ++ want.text ++ ", got " ++ got.text
  | .schema e => e.message
  | .tooManyOperands => "too many operands (at most 256)"
  | .tooManyFields => "too many stub fields (at most 256)"
  | .wrongDefinition want got =>
    "defines %" ++ Text.decimal want ++ " but the next operand is " ++ got.text
  | .noDefinition op want => op.name ++ " does not define %" ++ Text.decimal want
  | .missingDefinition op got =>
    op.name ++ " defines " ++ got.text ++ "; write `" ++ got.text ++ " = " ++ op.name ++ " ...`"
  | .build e => e.message?.getD ""

end LineError

/-- Why a listing does not stand for a program. -/
inductive ResolveError where
  | unknownKind (name : String)
  | wrongInputs (kind : CacheKind)
  | unknownFieldType (name : String)
  | limitField (index : Nat)
  | declaredTwice (index : Nat)
  | unknownOp (name : String)
  | line (number : Nat) (e : LineError)
  | tooManyFields

namespace ResolveError

def message : ResolveError → String
  | .unknownKind name => "unknown cache kind " ++ name
  | .wrongInputs kind =>
    kind.name ++ " takes " ++ Text.decimal kind.numInputs ++ " input(s) numbered from %0"
  | .unknownFieldType name => "unknown field type " ++ name
  | .limitField index =>
    "#" ++ Text.decimal index ++ " cannot have type " ++ FieldTag.limit.name
  | .declaredTwice index => "field #" ++ Text.decimal index ++ " declared twice"
  | .unknownOp name => "unknown op " ++ name
  | .line number e => "instruction " ++ Text.decimal number ++ ": " ++ e.message
  | .tooManyFields => "too many stub fields (at most 256)"

end ResolveError

/-- Fields by declared number. -/
abbrev Declarations := List (Nat × Field)

namespace Declarations

/-- Adds declarations in the order of the listing. No number is declared twice. -/
def add (ds : Declarations) : List TreeField → Except ResolveError Declarations
  | [] => .ok ds
  | f :: fs =>
    match FieldTag.ofName? f.type with
    | none => .error (.unknownFieldType f.type)
    | some .limit => .error (.limitField f.index)
    | some (.type t) =>
      if (ds.lookup f.index).isSome then .error (.declaredTwice f.index)
      else add ((f.index, ⟨t, f.word⟩) :: ds) fs

/-- The fields whose numbers are not in `used`, by increasing number. -/
def unused (ds : Declarations) (used : List Nat) : List Field :=
  let rest := ds.filter fun d => !used.contains d.1
  (rest.mergeSort fun a b => a.1 ≤ b.1).map Prod.snd

end Declarations

namespace TreeLine

/-- The argument that a written argument stands for at a place of the schema. -/
def resolveArg (p : Program) (ds : Declarations) : ArgKind → TreeArg → Except LineError Arg
  | .use, .operand id =>
    if id < p.numOperands then .ok (.operand ⟨id⟩) else .error (.undefinedOperand id)
  | .field _, .field index =>
    match ds.lookup index with
    | some f => .ok (.field f)
    | none => .error (.undeclaredField index)
  | .classKind, .name s =>
    match ClassKind.ofName? s with
    | some c => .ok (.classKind c)
    | none => .error (.unknownClass s)
  | .bool, .bool b => .ok (.bool b)
  | .int32, .int i =>
    if -0x80000000 ≤ i ∧ i < 0x80000000 then .ok (.int32 (Int32.ofInt i))
    else .error (.int32Range i)
  | k, a => .error (.mismatch k a)

/-- Arguments place by place. -/
def resolveArgs (p : Program) (ds : Declarations) :
    List ArgKind → List TreeArg → Except LineError (List Arg)
  | k :: ks, a :: as => do
    let b ← resolveArg p ds k a
    let bs ← resolveArgs p ds ks as
    return b :: bs
  | _, _ => .ok []

def isField : Arg → Bool
  | .field _ => true
  | _ => false

/-- Compares the operand on the left of `=` with the one that the instruction defined. -/
def checkDefinition (op : Op) : (written : Option Nat) → (defined : Option OperandId) →
    Except LineError Unit
  | none, none => .ok ()
  | some want, some got =>
    if got.index = want then .ok () else .error (.wrongDefinition want got)
  | some want, none => .error (.noDefinition op want)
  | none, some got => .error (.missingDefinition op got)

/-- Appends one instruction. The tests come before the instruction is appended, except for the
operand that it defines. -/
def resolve (l : TreeLine) (op : Op) (ds : Declarations) (p : Program) :
    Except LineError Program := do
  let kinds := op.explicitArgs
  if kinds.length ≠ l.args.length then throw (.argCount op kinds.length l.args.length)
  let args ← resolveArgs p ds kinds l.args
  (op.checkArgs args).mapError .schema
  if 0 < op.numDefs ∧ 255 < p.numOperands then throw .tooManyOperands
  if 256 < p.fields.size + args.countP isField then throw .tooManyFields
  match (Program.emit op args).run p with
  | .error e _ => throw (.build e)
  | .ok defined p =>
    checkDefinition op l.defined defined
    return p

/-- The numbers of the fields that a line uses. -/
def usedFields (l : TreeLine) : List Nat :=
  l.args.filterMap fun
    | .field index => some index
    | _ => none

end TreeLine

namespace Tree

/-- Appends the instructions of a listing, counted from `number`. -/
def resolveLines (ds : Declarations) : (number : Nat) → List TreeLine → Program →
    Except ResolveError Program
  | _, [], p => .ok p
  | number, l :: ls, p =>
    match Op.ofName? l.op with
    | none => .error (.unknownOp l.op)
    | some op => do
      let p ← (l.resolve op ds p).mapError (.line number)
      resolveLines ds (number + 1) ls p

/-- The program that a listing stands for. -/
def resolve (t : Tree) : Except ResolveError Program :=
  match CacheKind.ofName? t.kind with
  | none => .error (.unknownKind t.kind)
  | some kind => do
    if t.inputs ≠ List.range kind.numInputs then throw (.wrongInputs kind)
    let ds ← Declarations.add [] t.fields
    let p ← resolveLines ds 0 t.lines (Program.empty kind)
    let rest := ds.unused (t.lines.flatMap TreeLine.usedFields)
    if 256 < p.fields.size + rest.length then throw .tooManyFields
    return { p with fields := p.fields ++ rest.toArray }

end Tree

/-- Why a text is not a program. -/
inductive ParseError where
  /-- The text does not match the grammar. -/
  | syntaxError
  | resolve (e : ResolveError)

/-- Reads a text as a program. -/
def parse (text : String) : Except ParseError Program :=
  match Tree.parse? text with
  | none => .error .syntaxError
  | some t => t.resolve.mapError .resolve

end InlineCache.Listing
