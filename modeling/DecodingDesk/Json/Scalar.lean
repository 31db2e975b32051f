import DecodingDesk.Json.Value
import DecodingDesk.Decimal.Binary
import DecodingDesk.Decimal.Shortest
/-!
# Scalars in JSON

Which values stand for numbers, truth values and texts.  A count must be written
as an integer; a single-precision number may be written in any way and is
written back as the shortest decimal that reads back.  A number that is not
finite has no written form and becomes `null`.
-/

namespace DecodingDesk.Json

open Decimal (Layout)

/-- Numbers from `10 ^ -6` to below `10 ^ 13` are written without a power of ten and always
with a point; of two equally near decimals the even one is written. -/
def numberLayout : Layout where
  tie := .toEven
  plain first := -6 ≤ first && first < 13
  pointZero := true

namespace Value

def float (x : Float32) : Value :=
  match numberLayout.numeral? x with
  | some n => .num n
  | none => .null

def toUInt64? : Value → Option UInt64
  | .num n => n.toUInt64?
  | _ => none

def toFloat? : Value → Option Float32
  | .num n => n.toFloat32?
  | _ => none

def toBool? : Value → Option Bool
  | .bool b => some b
  | _ => none

def toText? : Value → Option String
  | .str t => t
  | _ => none

/-- The list that a value stands for, if each of its items stands for something. -/
def toList? {α : Type} (item : Value → Option α) : Value → Option (List α)
  | .arr items => items.mapM item
  | _ => none

def toTexts? (v : Value) : Option (List String) :=
  v.toList? toText?

def texts (ts : List String) : Value :=
  .arr (ts.map text)

/-- Whether every string in the value has a text and every number a value. -/
def isUsable (v : Value) : Bool :=
  v.allUsable Decimal.Numeral.inRange

end Value

end DecodingDesk.Json
