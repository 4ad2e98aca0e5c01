/-!
# Texts of numbers

Listings, places and diagnostics write numbers in two forms: signed decimals without leading
zeros, and machine words as `0x` followed by lowercase hexadecimal digits without leading zeros.
-/

namespace InlineCache.Text

/-- A natural number in decimal. -/
def decimal (n : Nat) : String :=
  String.ofList (Nat.toDigits 10 n)

/-- An integer in decimal, with a minus sign when it is negative. -/
def signed (i : Int) : String :=
  if i < 0 then "-" ++ decimal i.natAbs else decimal i.natAbs

/-- A machine word: `0x` and its hexadecimal digits. -/
def hexWord (w : UInt64) : String :=
  "0x" ++ String.ofList (Nat.toDigits 16 w.toNat)

/-- `true` or `false`. -/
def truth : Bool → String
  | true => "true"
  | false => "false"

end InlineCache.Text
