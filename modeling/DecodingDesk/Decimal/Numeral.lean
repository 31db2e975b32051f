import DecodingDesk.Decimal.Digits
/-!
# Decimal numerals

A numeral is the written form of a number: a sign, a whole part without leading
zeros, perhaps a fraction and perhaps a power of ten.  Writing a numeral and
reading it back gives the same numeral; what number it means is a matter for
the modules that use it.
-/

namespace DecodingDesk.Decimal

/-- A decimal numeral.  Without digits in `fraction` it has no decimal point. -/
structure Numeral where
  negative : Bool := false
  whole : Nat
  fraction : List Digit := []
  exponent : Option Int := none
deriving DecidableEq, Repr

namespace Numeral

def ofNat (n : Nat) : Numeral :=
  { whole := n }

/-- Whether the numeral is written without a point and without a power of ten. -/
def isInteger (n : Numeral) : Bool :=
  n.fraction.isEmpty && n.exponent.isNone

def natChars (n : Nat) : List Char :=
  (digits n).map Digit.char

/-- The sign of a power of ten, which is always written, and its digits. -/
def exponentChars (e : Int) : List Char :=
  'e' :: (if e < 0 then '-' else '+') :: natChars e.natAbs

def chars (n : Numeral) : List Char :=
  (if n.negative then ['-'] else []) ++ natChars n.whole ++
    (if n.fraction.isEmpty then [] else '.' :: n.fraction.map Digit.char) ++
    (match n.exponent with
      | none => []
      | some e => exponentChars e)

def text (n : Numeral) : String :=
  String.ofList n.chars

/-- Reads a whole part: digits, of which the first is not zero unless it is the only one. -/
def readWhole (cs : List Char) : Option (Nat × List Char) :=
  match spanDigits cs with
  | ([], _) => none
  | (d :: ds, rest) => if d = Digit.zero ∧ ds ≠ [] then none else some (ofDigits (d :: ds), rest)

/-- Reads a fraction if a point stands in front; a point without digits is refused. -/
def readFraction : List Char → Option (List Digit × List Char)
  | '.' :: cs =>
    match spanDigits cs with
    | ([], _) => none
    | (ds, rest) => some (ds, rest)
  | cs => some ([], cs)

/-- The digits of a power of ten, at least one. -/
def readPower (negative : Bool) (cs : List Char) : Option (Option Int × List Char) :=
  match spanDigits cs with
  | ([], _) => none
  | (ds, rest) =>
    let power : Int := ofDigits ds
    some (some (if negative then -power else power), rest)

def readExponent : List Char → Option (Option Int × List Char)
  | c :: cs =>
    if c = 'e' ∨ c = 'E' then
      match cs with
      | '-' :: rest => readPower true rest
      | '+' :: rest => readPower false rest
      | rest => readPower false rest
    else some (none, c :: cs)
  | [] => some (none, [])

def readUnsigned (negative : Bool) (cs : List Char) : Option (Numeral × List Char) := do
  let (whole, cs) ← readWhole cs
  let (fraction, cs) ← readFraction cs
  let (exponent, cs) ← readExponent cs
  return ({ negative, whole, fraction, exponent }, cs)

/-- Reads the numeral at the front of a text and says what follows it. -/
def read? : List Char → Option (Numeral × List Char)
  | '-' :: cs => readUnsigned true cs
  | cs => readUnsigned false cs

/-- The 64-bit natural number that the numeral writes: no sign, point or power of ten. -/
def toUInt64? (n : Numeral) : Option UInt64 :=
  if n.negative || !n.isInteger || UInt64.size ≤ n.whole then none
  else some (UInt64.ofNat n.whole)

end Numeral

end DecodingDesk.Decimal
