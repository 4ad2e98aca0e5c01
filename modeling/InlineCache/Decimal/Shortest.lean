/-!
# Fewest digits

A positive number `m * 2 ^ q` stands for an interval of reals: those that round to it. The
shortest decimal of the number is the decimal with the fewest digits in that interval, and among
those with that many digits the one nearest to the number. `Shortest.digits` finds it in exact
arithmetic. For 1, 2, … 17 digits it takes the two neighbours of the number on the grid of
decimals with that many digits; the first grid with a neighbour in the interval wins. A tie
between the two neighbours goes to the upper one.
-/

namespace InlineCache.Decimal

/-- The interval of the reals that round to a number, all over one denominator. -/
structure Rounding where
  /-- The number itself is `mid / den`. -/
  mid : Nat
  low : Nat
  high : Nat
  den : Nat
  /-- Whether the ends of the interval round to the number too. -/
  closed : Bool

/-- The rounding interval of `m * 2 ^ q`. The gap below is half as wide as the gap above when `m`
is the least fraction of its binade. -/
def Rounding.ofBinary (m : Nat) (q : Int) (narrowBelow : Bool) : Rounding :=
  let up := Nat.pow 2 q.toNat
  let below := if narrowBelow then 1 else 2
  { mid := 4 * m * up
    low := (4 * m - below) * up
    high := (4 * m + 2) * up
    den := 4 * Nat.pow 2 (-q).toNat
    closed := m % 2 == 0 }

/-- The same interval in units of `10 ^ g`. -/
def Rounding.inUnits (r : Rounding) (g : Int) : Rounding :=
  let up := Nat.pow 10 (-g).toNat
  { r with
    mid := r.mid * up
    low := r.low * up
    high := r.high * up
    den := r.den * Nat.pow 10 g.toNat }

/-- Whether the integer `a` lies in the interval. -/
def Rounding.contains (r : Rounding) (a : Nat) : Bool :=
  if r.closed then r.low ≤ a * r.den && a * r.den ≤ r.high
  else r.low < a * r.den && a * r.den < r.high

/-- The integer next to the number that lies in the interval: the nearer one if both do, and the
upper one in a tie. -/
def Rounding.neighbour? (r : Rounding) : Option Nat :=
  let a := r.mid / r.den
  let lower := r.contains a
  let upper := r.contains (a + 1)
  if lower && upper then
    if 2 * (r.mid - a * r.den) < r.den then some a else some (a + 1)
  else if lower then some a
  else if upper then some (a + 1)
  else none

/-- The number of decimal digits before the point, or minus the number of zeros after it: the
least `p` with `mid / den < 10 ^ p`. -/
def Rounding.magnitude (r : Rounding) : Int :=
  if r.den ≤ r.mid then (Nat.toDigits 10 (r.mid / r.den)).length
  else -(leadingZeros r.mid 400 : Int)
where
  /-- Zeros that follow the point, at most `fuel` of them. -/
  leadingZeros (mid : Nat) : Nat → Nat
    | 0 => 0
    | fuel + 1 => if r.den ≤ 10 * mid then 0 else leadingZeros (10 * mid) fuel + 1

/-- A decimal `0.d₁d₂… * 10 ^ point`. -/
structure Digits where
  digits : List Char
  point : Int

/-- The grids with `n`, `n + 1`, … digits, as many of them as `fuel` says. -/
def Rounding.firstHit (r : Rounding) (p : Int) (n : Nat) : Nat → Option (Nat × Int)
  | 0 => none
  | fuel + 1 =>
    match (r.inUnits (p - n)).neighbour? with
    | some a => some (a, p - n)
    | none => r.firstHit p (n + 1) fuel

/-- The digits of `a * 10 ^ g` without the zeros at the end. -/
def Digits.ofScaled (a : Nat) (g : Int) : Digits :=
  let ds := Nat.toDigits 10 a
  { digits := (ds.reverse.dropWhile (· == '0')).reverse
    point := g + ds.length }

/-- The decimal with the fewest digits that rounds to the number. -/
def Rounding.shortest (r : Rounding) : Digits :=
  match r.firstHit r.magnitude 1 17 with
  | some (a, g) => .ofScaled a g
  | none => .ofScaled (r.mid / r.den) 0

/-- The text of a decimal, written out in full without an exponent. -/
def Digits.positional (d : Digits) : List Char :=
  if d.point ≤ 0 then
    '0' :: '.' :: (List.replicate (-d.point).toNat '0' ++ d.digits)
  else if d.digits.length ≤ d.point.toNat then
    d.digits ++ List.replicate (d.point.toNat - d.digits.length) '0'
  else
    d.digits.take d.point.toNat ++ '.' :: d.digits.drop d.point.toNat

/-- The bit above the 52 bits of a fraction, which normal doubles do not store. -/
def implicitBit : Nat := 0x10000000000000

/-- The text of the double with this bit pattern: the fewest digits that read back, never an
exponent, no point without digits after it. -/
def ofDoubleBits (bits : UInt64) : String :=
  let sign := if bits >>> 63 == 1 then "-" else ""
  let exponent := ((bits >>> 52) &&& 0x7FF).toNat
  let fraction := (bits &&& 0xFFFFFFFFFFFFF).toNat
  if exponent == 0x7FF then
    if fraction == 0 then sign ++ "inf" else "NaN"
  else if exponent == 0 && fraction == 0 then sign ++ "0"
  else
    let r :=
      if exponent == 0 then Rounding.ofBinary fraction (-1074) false
      else
        Rounding.ofBinary (implicitBit + fraction) (exponent - 1075)
          (fraction == 0 && exponent != 1)
    sign ++ String.ofList r.shortest.positional

end InlineCache.Decimal
