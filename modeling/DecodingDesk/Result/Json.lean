import DecodingDesk.Result
import DecodingDesk.Json.Record
import DecodingDesk.Json.Printer
import DecodingDesk.Json.Reader
/-!
# Results in JSON

A batch result is an array of arrays of hypotheses.  A hypothesis without attention
is written without that member, and `null` reads as no attention; so missing
attention, an empty matrix and a matrix of empty rows stay apart.
-/

namespace DecodingDesk

open Json (Value)

namespace Model.Matrix

def ofValue? : Value → Option Matrix :=
  Value.toList? (Value.toList? Value.toFloat?)

def toValue (m : Matrix) : Value :=
  .arr (m.map fun row => .arr (row.map Value.float))

end Model.Matrix

namespace Hypothesis

/-- The names of the fields in the order of their declaration. -/
def fieldNames : List String :=
  ["score", "tokens", "attention"]

/-- The attention that a value stands for, `null` being none. -/
def attentionOfValue? : Value → Option (Option Model.Matrix)
  | .null => some none
  | v => (Model.Matrix.ofValue? v).map some

def ofValue? (v : Value) : Option Hypothesis := do
  let fields ← v.fields? fieldNames
  return {
    score := ← fields.required "score" Value.toFloat?
    tokens := ← fields.required "tokens" Value.toTexts?
    attention := ← fields.optional "attention" attentionOfValue? none }

def toValue (h : Hypothesis) : Value :=
  .object ([("score", .float h.score), ("tokens", .texts h.tokens)] ++
    match h.attention with
    | none => []
    | some m => [("attention", Model.Matrix.toValue m)])

end Hypothesis

namespace ItemResult

def ofValue? (v : Value) : Option ItemResult :=
  (v.toList? Hypothesis.ofValue?).map ItemResult.mk

def toValue (r : ItemResult) : Value :=
  .arr (r.hypotheses.map Hypothesis.toValue)

end ItemResult

namespace BatchResult

def ofValue? (v : Value) : Option BatchResult :=
  (v.toList? ItemResult.ofValue?).map BatchResult.mk

def toValue (b : BatchResult) : Value :=
  .arr (b.results.map ItemResult.toValue)

def parse? (s : String) : Option BatchResult :=
  (Json.parse? s).bind ofValue?

def print (b : BatchResult) : String :=
  b.toValue.print

end BatchResult

end DecodingDesk
