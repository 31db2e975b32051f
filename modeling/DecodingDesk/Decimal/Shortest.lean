import DecodingDesk.Decimal.Numeral
/-!
# The shortest decimal that reads back

Of the decimals that round to a given single-precision number, the one with the
fewest digits is chosen, and among those the nearest.  The search is the
definition: for one, two, three ... digits it tries the two neighbours of the
number on that decimal grid in exact arithmetic.  How the chosen digits are laid
out, and which way a tie goes, is decided by a `Layout`.
-/

namespace DecodingDesk.Decimal

/-- A finite magnitude `significand * 2 ^ power`.  In the `narrow` case the gap to the next
smaller number is half the gap to the next greater one. -/
structure Magnitude where
  significand : Nat
  power : Int
  narrow : Bool

def Magnitude.of (x : Float32) : Magnitude :=
  let bits := x.toBits.toNat
  let exponent : Nat := bits / twoPow 23 % twoPow 8
  let fraction := bits % twoPow 23
  if exponent = 0 then ⟨fraction, -149, false⟩
  else ⟨twoPow 23 + fraction, exponent - 150, fraction = 0 ∧ 1 < exponent⟩

/-- Whether a number has its sign set; so has a negative zero. -/
def isNegative (x : Float32) : Bool :=
  x.toBits.toNat / twoPow 31 = 1

inductive Tie where
  | toEven
  | up
deriving DecidableEq, Repr

structure Scaled where
  digits : Nat
  power : Int
deriving DecidableEq, Repr

/-- Compares `a * 10 ^ i` with `n * 2 ^ j`. -/
def compareScaled (a : Nat) (i : Int) (n : Nat) (j : Int) : Ordering :=
  compare (a * tenPow i.toNat * twoPow (-j).toNat) (n * twoPow j.toNat * tenPow (-i).toNat)

namespace Magnitude

/-- Whether a decimal lies among the reals that round to the number: between the midpoints to
its two neighbours, ends included exactly if the significand is even. -/
def readsBack (m : Magnitude) (d : Scaled) : Bool :=
  let low := if m.narrow then 4 * m.significand - 1 else 4 * m.significand - 2
  let high := 4 * m.significand + 2
  let closed := m.significand % 2 = 0
  let fromLow := compareScaled d.digits d.power low (m.power - 2)
  let fromHigh := compareScaled d.digits d.power high (m.power - 2)
  (fromLow = .gt || (closed && fromLow = .eq)) && (fromHigh = .lt || (closed && fromHigh = .eq))

/-- The greatest multiple of `10 ^ power` that is not above the number, in that unit. -/
def below (m : Magnitude) (power : Int) : Nat :=
  m.significand * twoPow m.power.toNat * tenPow (-power).toNat /
    (twoPow (-m.power).toNat * tenPow power.toNat)

/-- How the number stands to the midpoint between `n` and `n + 1` units of `10 ^ power`. -/
def fromMidpoint (m : Magnitude) (n : Nat) (power : Int) : Ordering :=
  (compareScaled (2 * n + 1) power (2 * m.significand) m.power).swap

/-- The best decimal that is a multiple of `10 ^ power`, if one reads back. -/
def onGrid (m : Magnitude) (tie : Tie) (power : Int) : Option Scaled :=
  let n := m.below power
  let low : Scaled := ⟨n, power⟩
  let high : Scaled := ⟨n + 1, power⟩
  match m.readsBack low, m.readsBack high with
  | false, false => none
  | true, false => some low
  | false, true => some high
  | true, true =>
    match m.fromMidpoint n power, tie with
    | .lt, _ => some low
    | .gt, _ => some high
    | .eq, .up => some high
    | .eq, .toEven => some (if n % 2 = 0 then low else high)

/-- The least power of ten above the number, among those that single precision needs. -/
def ceilingPower (m : Magnitude) : Int :=
  let above (k : Int) : Bool := compareScaled 1 k m.significand m.power = .gt
  match (List.range 90).find? fun (i : Nat) => above (i - 46) with
  | some i => i - 46
  | none => 44

def exact (m : Magnitude) : Scaled :=
  if 0 ≤ m.power then ⟨m.significand * twoPow m.power.toNat, 0⟩
  else ⟨m.significand * Nat.pow 5 (-m.power).toNat, m.power⟩

end Magnitude

/-- Zeros at the right end of the digits moved into the power of ten. -/
def Scaled.strip (d : Scaled) : Scaled :=
  if d.digits = 0 then d
  else if d.digits % 10 = 0 then Scaled.strip ⟨d.digits / 10, d.power + 1⟩
  else d
termination_by d.digits
decreasing_by omega

/-- The shortest decimal that reads back as the number, which is not zero.  Nine digits
always suffice; were there none, the exact value would be given. -/
def Magnitude.shortest (m : Magnitude) (tie : Tie) : Scaled :=
  let top := m.ceilingPower
  let found := (List.range 9).findSome? fun (i : Nat) => m.onGrid tie (top - 1 - i)
  (found.getD m.exact).strip

structure Layout where
  tie : Tie
  /-- whether a number whose first digit has this power of ten is written without a power -/
  plain : Int → Bool
  /-- whether an integral number is written with a fraction of one zero -/
  pointZero : Bool

/-- Digits with the point after the digit of power zero. -/
def plainNumeral (negative : Bool) (ds : List Digit) (first : Int) : Numeral :=
  if first < 0 then
    { negative, whole := 0, fraction := List.replicate (-first - 1).toNat Digit.zero ++ ds }
  else
    let n := first.toNat + 1
    { negative
      whole := ofDigits (ds.take n) * tenPow (n - ds.length)
      fraction := ds.drop n }

/-- Digits with the point after the first one and a power of ten. -/
def scientificNumeral (negative : Bool) (ds : List Digit) (first : Int) : Numeral :=
  { negative, whole := ofDigits (ds.take 1), fraction := ds.drop 1, exponent := some first }

namespace Layout

/-- A fraction of one zero is added where the layout asks for it. -/
def withPoint (l : Layout) (n : Numeral) : Numeral :=
  if l.pointZero && n.isInteger then { n with fraction := [Digit.zero] } else n

def finite (l : Layout) (x : Float32) : Numeral :=
  let m := Magnitude.of x
  let negative := isNegative x
  if m.significand = 0 then l.withPoint { negative, whole := 0 }
  else
    let d := m.shortest l.tie
    let ds := digits d.digits
    let first := d.power + ds.length - 1
    if l.plain first then l.withPoint (plainNumeral negative ds first)
    else scientificNumeral negative ds first

def numeral? (l : Layout) (x : Float32) : Option Numeral :=
  if x.isFinite then some (l.finite x) else none

end Layout

end DecodingDesk.Decimal
