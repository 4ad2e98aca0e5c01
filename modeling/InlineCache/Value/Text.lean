import InlineCache.Decimal.Shortest
import InlineCache.Text.Number
import InlineCache.Value.Basic

/-!
# Texts of values

Primitive values are written by content, everything else by type and payload.
-/

namespace InlineCache.Value

def text (v : Value) : String :=
  match v.type with
  | .double => "Double(" ++ Decimal.ofDoubleBits v.bits ++ ")"
  | .int32 => "Int32(" ++ Text.signed v.toInt32.toInt ++ ")"
  | .boolean => "Boolean(" ++ Text.truth v.toBool ++ ")"
  | .undefined => "Undefined"
  | .null => "Null"
  | t => t.name ++ "(" ++ Text.hexWord v.payload ++ ")"

def PointerTooWide.message (e : PointerTooWide) : String :=
  "pointer " ++ Text.hexWord e.address ++ " does not fit in a " ++ e.type.name ++ " payload"

end InlineCache.Value
