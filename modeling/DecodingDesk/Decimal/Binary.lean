import DecodingDesk.Decimal.Numeral
/-!
# From numerals to binary floating point

A numeral is read in two roundings: its significand, cut to what 64 bits hold,
is scaled by a power of ten in double precision, and the result is rounded to
single precision.  Integers of 64 bits are rounded to single precision at once.
A numeral beyond the range of double precision has no value; one beyond the
range of single precision only is infinite.
-/

namespace DecodingDesk.Decimal

/-- The single-precision number nearest to `m * 2 ^ q`, a tie going to the even
significand.  Beyond the greatest finite number the result is infinite. -/
def nearest (negative : Bool) (m : Nat) (q : Int) : Float32 :=
  let unit := max (-149) (q + m.log2 - 23)
  let significand :=
    if unit ≤ q then m <<< (q - unit).toNat
    else
      let grid := twoPow (unit - q).toNat
      let low := m / grid
      let twice := 2 * (m % grid)
      if grid < twice ∨ (twice = grid ∧ low % 2 = 1) then low + 1 else low
  let magnitude :=
    if m = 0 then 0
    else if significand < twoPow 23 then significand
    else (unit + 149).toNat * twoPow 23 + significand
  let infinity := 0xFF * twoPow 23
  Float32.ofBits (UInt32.ofNat (min magnitude infinity + if negative then twoPow 31 else 0))

def narrow (x : Float) : Float32 :=
  let bits := x.toBits.toNat
  let negative := bits / twoPow 63 = 1
  let exponent : Nat := bits / twoPow 52 % twoPow 11
  let fraction := bits % twoPow 52
  if exponent = 0 then nearest negative fraction (-1074)
  else nearest negative (twoPow 52 + fraction) (exponent - 1075)

def powerOfTen (k : Nat) : Float :=
  Float.ofScientific 1 false k

/-- Cuts digits off the right end of a number until 64 bits hold it; also says how many. -/
def fitWhole (n : Nat) : Nat × Nat :=
  if n < UInt64.size then (n, 0)
  else
    let (m, cut) := fitWhole (n / 10)
    (m, cut + 1)
termination_by n
decreasing_by simp only [UInt64.size] at *; omega

/-- Appends the digits of a fraction to a significand as long as 64 bits hold it. -/
def fitFraction (m : Nat) (power : Int) : List Digit → Nat × Int
  | [] => (m, power)
  | d :: ds =>
    if 10 * m + d.val < UInt64.size then fitFraction (10 * m + d.val) (power - 1) ds
    else (m, power)

/-- A double-precision number times a power of ten.  Small powers are divided out in steps
of `10 ^ 308`; a result beyond the range of double precision is no number. -/
def scale (x : Float) (power : Int) : Option Float :=
  if 308 < power then
    if x == 0 then some x else none
  else if 0 ≤ power then
    let y := x * powerOfTen power.toNat
    if y.isInf then none else some y
  else if -308 ≤ power then some (x / powerOfTen (-power).toNat)
  else if x == 0 then some x
  else scale (x / powerOfTen 308) (power + 308)
termination_by (-power).toNat

namespace Numeral

/-- The numeral without its sign in double precision. -/
def magnitude? (n : Numeral) : Option Float :=
  let (whole, cut) := fitWhole n.whole
  let (significand, power) := fitFraction whole cut n.fraction
  scale significand.toUInt64.toFloat (power + n.exponent.getD 0)

/-- Whether the numeral writes an integer in the range of 64 bits, signed or not.  A zero
with a minus sign is not one. -/
def isInteger64 (n : Numeral) : Bool :=
  n.isInteger &&
    if n.negative then 0 < n.whole && n.whole ≤ twoPow 63 else n.whole < twoPow 64

def toFloat32? (n : Numeral) : Option Float32 :=
  if n.isInteger64 then
    let x := n.whole.toUInt64.toFloat32
    some (if n.negative then -x else x)
  else
    n.magnitude?.map fun x => narrow (if n.negative then -x else x)

def inRange (n : Numeral) : Bool :=
  n.isInteger64 || n.magnitude?.isSome

end Numeral

end DecodingDesk.Decimal
