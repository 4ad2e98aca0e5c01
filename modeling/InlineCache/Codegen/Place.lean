import InlineCache.Value.Text
import InlineCache.X64.Register

/-!
# Places

Where the value of an operand is at some point of the compiled code: boxed or as the bare payload
of a known type, in a register or on the stack, or not materialised at all because it is a
constant.
-/

namespace InlineCache

open X64

/-- Where a value is. A stack place is named by the number of bytes that were pushed right after
the value was. -/
inductive Place where
  | uninitialized
  | payloadReg (r : Register) (t : ValueType)
  | valueReg (r : Register)
  | payloadStack (offset : Nat) (t : ValueType)
  | valueStack (offset : Nat)
  | constant (v : Value)
deriving DecidableEq

namespace Place

/-- The register that the place occupies. -/
def register? : Place → Option Register
  | .payloadReg r _ => some r
  | .valueReg r => some r
  | _ => none

def isOnStack : Place → Bool
  | .payloadStack _ _ => true
  | .valueStack _ => true
  | _ => false

/-- The type that is known without looking at the value. -/
def knownType? : Place → Option ValueType
  | .payloadReg _ t => some t
  | .payloadStack _ t => some t
  | .constant v => some v.type
  | _ => none

def text : Place → String
  | .uninitialized => "uninitialized"
  | .payloadReg r t => r.name ++ ":" ++ t.name
  | .valueReg r => r.name ++ ":value"
  | .payloadStack offset t => "stack[" ++ Text.decimal offset ++ "]:" ++ t.name
  | .valueStack offset => "stack[" ++ Text.decimal offset ++ "]:value"
  | .constant v => "const " ++ v.text

end Place
end InlineCache
