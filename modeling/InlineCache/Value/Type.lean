/-!
# Value types and their tags

A boxed word carries its type in the upper 17 bits. Tags up to `ValueType.maxDoubleTag` belong to
doubles; every other type has the tag `maxDoubleTag ||| code`, so that the order of the tags is
the order of the codes and "is a number" is one comparison.
-/

namespace InlineCache

/-- The dynamic type of a boxed value. -/
inductive ValueType where
  | double
  | int32
  | boolean
  | undefined
  | null
  | magic
  | string
  | symbol
  | privateGCThing
  | object
deriving DecidableEq

namespace ValueType

/-- Every type, in the order of the codes. -/
def all : List ValueType :=
  [.double, .int32, .boolean, .undefined, .null, .magic, .string, .symbol, .privateGCThing,
    .object]

def name : ValueType → String
  | .double => "Double"
  | .int32 => "Int32"
  | .boolean => "Boolean"
  | .undefined => "Undefined"
  | .null => "Null"
  | .magic => "Magic"
  | .string => "String"
  | .symbol => "Symbol"
  | .privateGCThing => "PrivateGCThing"
  | .object => "Object"

def ofName? (s : String) : Option ValueType :=
  all.find? fun t => t.name == s

/-- The number that a type contributes to its tag. -/
def code : ValueType → UInt64
  | .double => 0x0
  | .int32 => 0x1
  | .boolean => 0x2
  | .undefined => 0x3
  | .null => 0x4
  | .magic => 0x5
  | .string => 0x6
  | .symbol => 0x7
  | .privateGCThing => 0x8
  | .object => 0xc

/-- The number of payload bits below the tag. -/
def tagShift : UInt64 := 47

/-- The greatest tag that belongs to a double. -/
def maxDoubleTag : UInt64 := 0x1FFF0

/-- The tag of a type, as a number of 17 bits. -/
def tag (t : ValueType) : UInt64 :=
  maxDoubleTag ||| t.code

/-- The tag of a type at its place in a boxed word. -/
def shiftedTag (t : ValueType) : UInt64 :=
  t.tag <<< tagShift

/-- The greatest tag of a double at its place in a boxed word. -/
def shiftedMaxDoubleTag : UInt64 :=
  maxDoubleTag <<< tagShift

/-- The type of a word whose tag lies above the doubles, from the low bits of that tag. -/
def ofTagBits? (bits : UInt64) : Option ValueType :=
  all.tail.find? fun t => t.code == bits

/-- Types whose payload is a pointer to a heap thing. -/
def isPointer : ValueType → Bool
  | .string | .symbol | .privateGCThing | .object => true
  | _ => false

end ValueType
end InlineCache
