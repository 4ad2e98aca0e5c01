import InlineCache.Text.Number

/-!
# Property keys

A property key is one word. Atoms are plain pointers, symbols are pointers with a mark in the low
bits, integers are shifted up by one with the lowest bit set. Pointers to atoms and symbols are
aligned to eight bytes, so the three low bits are free for the mark.
-/

namespace InlineCache

/-- A property key: an atom, a symbol or an integer. -/
structure PropertyKey where
  bits : UInt64
deriving DecidableEq

namespace PropertyKey

def typeMask : UInt64 := 0x7

def symbolTag : UInt64 := 0x4

def intTag : UInt64 := 0x1

/-- A pointer that is not aligned to eight bytes. -/
structure Misaligned where
  address : UInt64

/-- The key of an atom. -/
def ofAtom (address : UInt64) : Except Misaligned PropertyKey :=
  if address &&& typeMask == 0 then .ok ⟨address⟩ else .error ⟨address⟩

/-- The key of a symbol. -/
def ofSymbol (address : UInt64) : Except Misaligned PropertyKey :=
  if address &&& typeMask == 0 then .ok ⟨address ||| symbolTag⟩ else .error ⟨address⟩

/-- The key of an integer index. -/
def ofInt (i : UInt32) : PropertyKey :=
  ⟨(i.toUInt64 <<< 1) ||| intTag⟩

def isAtom (k : PropertyKey) : Bool :=
  k.bits &&& typeMask == 0 && k.bits != 0

def isSymbol (k : PropertyKey) : Bool :=
  k.bits &&& typeMask == symbolTag

def isInt (k : PropertyKey) : Bool :=
  k.bits &&& intTag != 0

/-- Whether the collector has to visit the key. -/
def isGCThing (k : PropertyKey) : Bool :=
  k.isAtom || k.isSymbol

def text (k : PropertyKey) : String :=
  if k.isInt then "PropertyKey(int " ++ Text.decimal (k.bits >>> 1).toNat ++ ")"
  else if k.isSymbol then "PropertyKey(symbol " ++ Text.hexWord (k.bits &&& ~~~typeMask) ++ ")"
  else "PropertyKey(atom " ++ Text.hexWord k.bits ++ ")"

end PropertyKey
end InlineCache
