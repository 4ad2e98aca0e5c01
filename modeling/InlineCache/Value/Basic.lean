import InlineCache.Value.Type

/-!
# Boxed values

A `Value` is one 64-bit word. A double is its own bit pattern; everything else is a tag over a
payload of 47 bits. `Value.type` sorts every word into a type, words with a tag that no type owns
included: those are `magic`.
-/

namespace InlineCache

/-- A boxed value. -/
structure Value where
  bits : UInt64
deriving DecidableEq

namespace Value

/-- The bits below the tag. -/
def payloadMask : UInt64 := 0x7FFFFFFFFFFF

/-- The bit pattern that every NaN is boxed as. -/
def canonicalNaN : UInt64 := 0x7FF8000000000000

/-- The tag of `t` over `payload`. -/
def boxed (t : ValueType) (payload : UInt64) : Value :=
  ⟨t.shiftedTag ||| payload⟩

def undefined : Value := boxed .undefined 0

def null : Value := boxed .null 0

def ofInt32 (i : Int32) : Value :=
  boxed .int32 i.toUInt32.toUInt64

def ofBool (b : Bool) : Value :=
  boxed .boolean (if b then 1 else 0)

def magic (why : UInt32) : Value :=
  boxed .magic why.toUInt64

/-- Whether a bit pattern is a NaN: the exponent is all ones and the fraction is not zero. -/
def isNaNBits (bits : UInt64) : Bool :=
  bits &&& 0x7FF0000000000000 == 0x7FF0000000000000 && bits &&& 0xFFFFFFFFFFFFF != 0

/-- Boxes the double with this bit pattern. NaNs become `canonicalNaN`, so that none of them can
be mistaken for a tagged value. -/
def ofDoubleBits (bits : UInt64) : Value :=
  if isNaNBits bits then ⟨canonicalNaN⟩ else ⟨bits⟩

/-- An address that needs more bits than a payload has. -/
structure PointerTooWide where
  address : UInt64
  type : ValueType

/-- Boxes a pointer, which has to fit below the tag. -/
def ofPointer (t : ValueType) (address : UInt64) : Except PointerTooWide Value :=
  if address &&& ~~~payloadMask == 0 then .ok (boxed t address) else .error ⟨address, t⟩

/-- The 17 bits above the payload. -/
def tag (v : Value) : UInt64 :=
  v.bits >>> ValueType.tagShift

def payload (v : Value) : UInt64 :=
  v.bits &&& payloadMask

def isDouble (v : Value) : Bool :=
  v.tag ≤ ValueType.maxDoubleTag

def isNumber (v : Value) : Bool :=
  v.tag ≤ ValueType.int32.tag

/-- Whether the word carries the tag of `t`. -/
def hasTag (v : Value) (t : ValueType) : Bool :=
  v.tag == t.tag

/-- Whether this is the word `undefined` itself. -/
def isUndefined (v : Value) : Bool :=
  v == undefined

def type (v : Value) : ValueType :=
  if v.isDouble then .double
  else (ValueType.ofTagBits? (v.tag &&& ~~~ValueType.maxDoubleTag)).getD .magic

/-- Whether the collector has to visit the value. -/
def isGCThing (v : Value) : Bool :=
  v.type.isPointer

def toInt32 (v : Value) : Int32 :=
  v.bits.toUInt32.toInt32

def toBool (v : Value) : Bool :=
  v.bits &&& 1 != 0

/-- The payload of a value that carries the tag of `t`. -/
def toPointer? (v : Value) (t : ValueType) : Option UInt64 :=
  if v.hasTag t then some v.payload else none

end Value
end InlineCache
