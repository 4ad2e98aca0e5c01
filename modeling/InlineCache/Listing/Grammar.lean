import InlineCache.Listing.Tree
import InlineCache.Text.Blank

/-!
# The grammar of listings

A parser takes characters off the front of a text or fails without taking any. Alternatives are
tried in order and repetition takes as much as it can, so a text has at most one reading:

    program  = white header (lineEnds spacing line)* [lineEnds spacing fields] white end
    header   = identifier "(" spacing [operand (spacing "," spacing operand)*] spacing ")"
    line     = [operand spacing "=" spacing] identifier spacing [arg (spacing "," spacing arg)*]
    arg      = operand | "#" number | "true" | "false" | ["-"] number | identifier
    fields   = "fields:" (lineEnds spacing field)*
    field    = "#" number spacing identifier spacing "0x" number

A number that is too large for its place does not match there. The identifier of a line is not
`fields`.
-/

namespace InlineCache.Listing

/-- Takes something off the front of a text, or fails. -/
abbrev Parser := StateT (List Char) Option

namespace Parser

def fail {α : Type} : Parser α :=
  fun _ => none

/-- One character of a class. -/
def satisfy (ok : Char → Bool) : Parser Char
  | c :: cs => if ok c then some (c, cs) else none
  | [] => none

/-- The longest run of characters of a class. -/
def run (ok : Char → Bool) : Parser (List Char) :=
  fun cs => some (cs.takeWhile ok, cs.dropWhile ok)

/-- These very characters. -/
def literal (s : List Char) : Parser Unit :=
  fun cs => if s.isPrefixOf cs then some ((), cs.drop s.length) else none

def atEnd : Parser Unit
  | [] => some ((), [])
  | _ :: _ => none

def optional {α : Type} (p : Parser α) : Parser (Option α) :=
  (do return some (← p)) <|> return none

/-- `p` over and over until it fails, at most `limit` times. -/
def manyUpTo {α : Type} (p : Parser α) : (limit : Nat) → Parser (List α)
  | 0 => return []
  | limit + 1 => fun cs =>
    match p cs with
    | none => some ([], cs)
    | some (a, rest) => (do return a :: (← manyUpTo p limit)) rest

/-- `p` over and over until it fails. Every parser repeated here takes at least one character, so
the length of the text bounds the repetition. -/
def many {α : Type} (p : Parser α) : Parser (List α) :=
  fun cs => manyUpTo p cs.length cs

/-! ## Blanks -/

def white : Parser Unit := do
  discard (run Text.isBlank)

def spacing : Parser Unit := do
  discard (run Text.isSpacing)

/-- One line end; a carriage return takes a line feed after it along. -/
def newline : Parser Unit
  | '\r' :: '\n' :: cs => some ((), cs)
  | c :: cs => if Text.isLineEnd c then some ((), cs) else none
  | [] => none

def lineEnd : Parser Unit := do
  spacing
  newline

/-- One or more line ends. -/
def lineEnds : Parser Unit := do
  lineEnd
  discard (many lineEnd)

/-- Items with commas between them, or nothing. A comma without an item after it is left. -/
def separated {α : Type} (p : Parser α) : Parser (List α) :=
  (do
    let a ← p
    let as ← many do
      spacing
      literal [',']
      spacing
      p
    return a :: as)
  <|> return []

/-! ## Words and numbers -/

def identifier : Parser String := do
  let c ← satisfy Text.isIdentifierStart
  let cs ← run Text.isIdentifierRest
  return String.ofList (c :: cs)

/-- The value of a digit in either case. -/
def digitValue (c : Char) : Nat :=
  if '0' ≤ c ∧ c ≤ '9' then c.toNat - '0'.toNat
  else if 'a' ≤ c ∧ c ≤ 'f' then c.toNat - 'a'.toNat + 10
  else if 'A' ≤ c ∧ c ≤ 'F' then c.toNat - 'A'.toNat + 10
  else 16

def isDigitOf (base : Nat) (c : Char) : Bool :=
  digitValue c < base

/-- The number that digits stand for. -/
def ofDigits (base : Nat) (ds : List Char) : Nat :=
  ds.foldl (fun n c => n * base + digitValue c) 0

/-- A zero alone, or digits that do not start with a zero. -/
def number (base : Nat) : Parser Nat := do
  let c ← satisfy (isDigitOf base)
  if c == '0' then return 0
  else
    let cs ← run (isDigitOf base)
    return ofDigits base (c :: cs)

/-- A decimal number below `bound`. -/
def numberBelow (bound : Nat) : Parser Nat := do
  let n ← number 10
  if n < bound then return n else fail

def word : Parser UInt64 := do
  literal ['0', 'x']
  let n ← number 16
  if n < 0x10000000000000000 then return n.toUInt64 else fail

/-- An integer of 64 bits. -/
def integer : Parser Int := do
  let minus ← optional (literal ['-'])
  let n ← number 10
  let i : Int := if minus.isSome then -n else n
  if -0x8000000000000000 ≤ i ∧ i < 0x8000000000000000 then return i else fail

/-! ## Lines -/

def operand : Parser Nat := do
  literal ['%']
  numberBelow 0x10000

def fieldIndex : Parser Nat := do
  literal ['#']
  numberBelow 0x100000000

def arg : Parser TreeArg :=
  (do return .operand (← operand))
  <|> (do return .field (← fieldIndex))
  <|> (do literal ['t', 'r', 'u', 'e']; return .bool true)
  <|> (do literal ['f', 'a', 'l', 's', 'e']; return .bool false)
  <|> (do return .int (← integer))
  <|> (do return .name (← identifier))

def assignment : Parser Nat := do
  let x ← operand
  spacing
  literal ['=']
  spacing
  return x

def line : Parser TreeLine := do
  let defined ← optional assignment
  let op ← identifier
  if op == "fields" then fail
  spacing
  let args ← separated arg
  return ⟨defined, op, args⟩

def field : Parser TreeField := do
  let index ← fieldIndex
  spacing
  let type ← identifier
  spacing
  let w ← word
  return ⟨index, type, w⟩

def header : Parser (String × List Nat) := do
  let kind ← identifier
  literal ['(']
  spacing
  let inputs ← separated operand
  spacing
  literal [')']
  return (kind, inputs)

/-- `p` on a line of its own. -/
def onNextLine {α : Type} (p : Parser α) : Parser α := do
  lineEnds
  spacing
  p

def fieldSection : Parser (List TreeField) := do
  onNextLine (literal ['f', 'i', 'e', 'l', 'd', 's', ':'])
  many (onNextLine field)

def program : Parser Tree := do
  white
  let (kind, inputs) ← header
  let lines ← many (onNextLine line)
  let fields ← optional fieldSection
  white
  atEnd
  return ⟨kind, inputs, lines, fields.getD []⟩

end Parser

/-- Reads a text as a listing. -/
def Tree.parse? (text : String) : Option Tree :=
  (Parser.program text.toList).map Prod.fst

end InlineCache.Listing
