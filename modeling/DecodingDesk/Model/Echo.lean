import DecodingDesk.Model
/-!
# The echo model

A deterministic model that needs no data.  Its best hypothesis is the source
itself; the hypothesis of rank `k` is the source rotated to the left by `k`.  It
may have a closed vocabulary, and a map that restricts what it generates.
-/

namespace DecodingDesk.Model

structure Echo where
  /-- the only source tokens that the model knows, if it is closed -/
  vocabulary : Option (List String) := none
  /-- the only tokens that it generates when restriction is on -/
  vocabularyMap : Option (List String) := none
deriving DecidableEq, Repr

namespace Echo

/-- The first token that the model does not know. -/
def unknownToken? (e : Echo) (source : Item) : Option String :=
  match e.vocabulary with
  | none => none
  | some known => source.find? fun token => !known.contains token

/-- Keeps only what the map allows, if restriction is on and there is a map. -/
def restrict (e : Echo) (options : Options) (tokens : Item) : Item :=
  match options.params.restrictVocabulary, e.vocabularyMap with
  | true, some allowed => tokens.filter fun token => allowed.contains token
  | _, _ => tokens

/-- The hypothesis of a rank: rotated, then restricted, then cut to the longest length. -/
def hypothesis (e : Echo) (options : Options) (source : Item) (rank : Nat) : Item :=
  (e.restrict options (source.rotateLeft rank)).take options.params.maxDecodingLength.toNat

/-- The score of a rank: `-(rank + 1) / (1 + |penalty|)`. -/
def score (options : Options) (rank : Nat) : Float32 :=
  -(rank + 1).toUInt64.toFloat32 / (1 + options.params.lengthPenalty.abs)

/-- The row of an output token: all weight on the first source token of the same text. -/
def alignRow (source : Item) (token : String) : List Float32 :=
  let origin := source.idxOf? token
  (List.range source.length).map fun i => if origin = some i then 1 else 0

def align (source target : Item) : Matrix :=
  target.map (alignRow source)

def count (options : Options) : Nat :=
  min options.params.numHypotheses.toNat options.params.beamSize.toNat

def output (e : Echo) (options : Options) (source : Item) : Output :=
  let ranks := List.range (count options)
  let hypotheses := ranks.map (e.hypothesis options source)
  { hypotheses
    scores := ranks.map (score options)
    attention :=
      if options.params.returnAttention then some (hypotheses.map (align source)) else none }

/-- The answers for the items of a batch up to the first that fails. -/
def outputs (e : Echo) (options : Options) : Batch → Except Outcome (List Output)
  | [] => .ok []
  | source :: rest =>
    match e.unknownToken? source with
    | some token => .error (.failed (.outsideVocabulary token))
    | none =>
      if fitsMemory (count options) then (outputs e options rest).map (e.output options source :: ·)
      else .error (.panicked (.message Fault.capacityOverflow.message))

def model (e : Echo) : Model := fun batch options =>
  match e.outputs options batch with
  | .ok os => .outputs os
  | .error outcome => outcome

theorem model_ne_lethal (e : Echo) (batch : Batch) (options : Options) :
    e.model batch options ≠ .panicked .lethal := by
  have herror : e.outputs options batch ≠ .error (.panicked .lethal) := by
    induction batch with
    | nil => simp [outputs]
    | cons source rest ih =>
      unfold outputs
      split
      · simp
      · split
        · cases hrest : e.outputs options rest with
          | ok os => simp [Except.map]
          | error outcome =>
            rw [hrest] at ih
            simpa [Except.map] using ih
        · simp
  unfold model
  split
  · simp
  · rename_i outcome houtcome
    rw [houtcome] at herror
    simpa using herror

end Echo

end DecodingDesk.Model
