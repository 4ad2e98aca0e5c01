/-!
# Kinds of cache sites
-/

namespace InlineCache

/-- The operation that a cache site performs. It fixes how many inputs its stubs take. -/
inductive CacheKind where
  | getProp
  | getElem
  | getName
  | setProp
  | hasProp
  | hasOwn
  | typeOf
  | binaryArith
  | compare
deriving DecidableEq

namespace CacheKind

def all : List CacheKind :=
  [.getProp, .getElem, .getName, .setProp, .hasProp, .hasOwn, .typeOf, .binaryArith, .compare]

def numInputs : CacheKind → Nat
  | .getProp | .getName | .typeOf => 1
  | _ => 2

def name : CacheKind → String
  | .getProp => "GetProp"
  | .getElem => "GetElem"
  | .getName => "GetName"
  | .setProp => "SetProp"
  | .hasProp => "In"
  | .hasOwn => "HasOwn"
  | .typeOf => "TypeOf"
  | .binaryArith => "BinaryArith"
  | .compare => "Compare"

def ofName? (s : String) : Option CacheKind :=
  all.find? fun k => k.name == s

theorem numInputs_le_two (k : CacheKind) : k.numInputs ≤ 2 := by
  cases k <;> decide

end CacheKind
end InlineCache
