/-!
# Classes

The classes that a program can guard for, and the addresses that stand for them in machine code
and in object groups. Code is compiled and run with some table of addresses, whichever it is.
-/

namespace InlineCache

/-- A class of objects known to the compiler. -/
inductive ClassKind where
  | array
  | plainObject
  | function
deriving DecidableEq

namespace ClassKind

def all : List ClassKind := [.array, .plainObject, .function]

/-- The byte of a class in a program. -/
def byte : ClassKind → UInt8
  | .array => 0
  | .plainObject => 1
  | .function => 2

def ofByte? : UInt8 → Option ClassKind
  | 0 => some .array
  | 1 => some .plainObject
  | 2 => some .function
  | _ => none

def name : ClassKind → String
  | .array => "Array"
  | .plainObject => "PlainObject"
  | .function => "Function"

def ofName? (s : String) : Option ClassKind :=
  all.find? fun c => c.name == s

/-- The name under which scripts know the class. -/
def scriptName : ClassKind → String
  | .array => "Array"
  | .plainObject => "Object"
  | .function => "Function"

/-- What stands for the address where code is shown, because the address tells a reader nothing. -/
def placeholder (c : ClassKind) : UInt64 :=
  0xc1a5500000000000 + c.byte.toUInt64

theorem ofByte?_byte (c : ClassKind) : ofByte? c.byte = some c := by
  cases c <;> rfl

end ClassKind

/-! ## Addresses -/

/-- Where the class descriptors are. They are apart, and nothing else is known of them. -/
class ClassTable where
  address : ClassKind → UInt64
  injective : ∀ {c d : ClassKind}, address c = address d → c = d

namespace ClassKind

/-- The address of the class descriptor. -/
def address [ClassTable] (c : ClassKind) : UInt64 :=
  ClassTable.address c

def ofAddress? [ClassTable] (a : UInt64) : Option ClassKind :=
  all.find? fun c => c.address == a

end ClassKind

/-- Addresses to run with. They differ in both halves, so that overwriting one half of a class
pointer never makes it the pointer to another class. -/
instance ClassTable.standard : ClassTable where
  address
    | .array => 0x5a11c1a55a00
    | .plainObject => 0x5a22c1a66b10
    | .function => 0x5a33c1a77c20
  injective {c d} h := by
    revert h
    cases c <;> cases d <;> decide

end InlineCache
