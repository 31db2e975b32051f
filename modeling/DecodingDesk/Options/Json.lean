import DecodingDesk.Options
import DecodingDesk.Json.Record
import DecodingDesk.Json.Printer
import DecodingDesk.Json.Reader
/-!
# Decoding parameters in JSON

Parameters are read from a record of which every field may be missing, and are
written as an object with all fields in the order of their declaration.
-/

namespace DecodingDesk.DecodingParams

open Json (Value)

/-- The names of the fields in the order of their declaration. -/
def fieldNames : List String :=
  ["beam_size", "num_hypotheses", "length_penalty", "max_decoding_length",
   "min_decoding_length", "restrict_vocabulary", "return_attention", "with_scores"]

/-- The defaults changed at the given fields, if each of these has its type. -/
def ofFields? (fields : Json.Fields) : Option DecodingParams := do
  let d : DecodingParams := {}
  return {
    beamSize := ← fields.optional "beam_size" Value.toUInt64? d.beamSize
    numHypotheses := ← fields.optional "num_hypotheses" Value.toUInt64? d.numHypotheses
    lengthPenalty := ← fields.optional "length_penalty" Value.toFloat? d.lengthPenalty
    maxDecodingLength := ← fields.optional "max_decoding_length" Value.toUInt64? d.maxDecodingLength
    minDecodingLength := ← fields.optional "min_decoding_length" Value.toUInt64? d.minDecodingLength
    restrictVocabulary := ← fields.optional "restrict_vocabulary" Value.toBool? d.restrictVocabulary
    returnAttention := ← fields.optional "return_attention" Value.toBool? d.returnAttention
    withScores := ← fields.optional "with_scores" Value.toBool? d.withScores }

def ofValue? (v : Value) : Option DecodingParams :=
  (v.fields? fieldNames).bind ofFields?

def toValue (p : DecodingParams) : Value :=
  .object
    [("beam_size", .nat p.beamSize.toNat),
     ("num_hypotheses", .nat p.numHypotheses.toNat),
     ("length_penalty", .float p.lengthPenalty),
     ("max_decoding_length", .nat p.maxDecodingLength.toNat),
     ("min_decoding_length", .nat p.minDecodingLength.toNat),
     ("restrict_vocabulary", .bool p.restrictVocabulary),
     ("return_attention", .bool p.returnAttention),
     ("with_scores", .bool p.withScores)]

def parse? (s : String) : Option DecodingParams :=
  (Json.parse? s).bind ofValue?

def print (p : DecodingParams) : String :=
  p.toValue.print

end DecodingDesk.DecodingParams
