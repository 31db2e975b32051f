import DecodingDesk.Error
/-!
# Decoding options

Callers fill in `DecodingParams`, in which every field has a default.  A dispatch
turns them into `Options`, which exist only for consistent parameters, or answers
the first thing that is wrong with them.
-/

namespace DecodingDesk

def defaultPenalty : Float32 :=
  Float32.ofBits 0x3F19999A

/-- The decoding fields that a caller can set. -/
structure DecodingParams where
  /-- number of partial sequences tracked while decoding -/
  beamSize : UInt64 := 4
  /-- number of hypotheses wanted for each item -/
  numHypotheses : UInt64 := 1
  /-- weight of the length when hypotheses are ranked -/
  lengthPenalty : Float32 := defaultPenalty
  /-- upper bound on generated tokens -/
  maxDecodingLength : UInt64 := 250
  /-- lower bound on generated tokens -/
  minDecodingLength : UInt64 := 1
  /-- whether only tokens of the model's vocabulary map are generated -/
  restrictVocabulary : Bool := false
  /-- whether attention is wanted with every hypothesis -/
  returnAttention : Bool := false
  /-- whether scores are shown in output files -/
  withScores : Bool := false
deriving DecidableEq, Repr

structure DecodingParams.Valid (p : DecodingParams) : Prop where
  beamSize_ne_zero : p.beamSize ≠ 0
  numHypotheses_ne_zero : p.numHypotheses ≠ 0
  min_le_max : p.minDecodingLength ≤ p.maxDecodingLength
  penalty_isFinite : p.lengthPenalty.isFinite = true

/-- Parameters that have passed the check, the same for a whole dispatch. -/
structure Options where
  params : DecodingParams
  valid : params.Valid

namespace Options

/-- Checks parameters.  The beam is looked at first, then the number of hypotheses, the two
lengths and the penalty. -/
def validate (p : DecodingParams) : Except OptionsError Options :=
  if hb : p.beamSize = 0 then .error .zeroBeamSize
  else if hn : p.numHypotheses = 0 then .error .zeroHypotheses
  else if hl : p.minDecodingLength ≤ p.maxDecodingLength then
    if hp : p.lengthPenalty.isFinite = true then .ok ⟨p, ⟨hb, hn, hl, hp⟩⟩
    else .error .penaltyNotFinite
  else .error (.lengthsCrossed p.minDecodingLength.toNat p.maxDecodingLength.toNat)

theorem params_of_validate {p : DecodingParams} {o : Options} (h : validate p = .ok o) :
    o.params = p := by
  unfold validate at h
  repeat' split at h
  all_goals cases h
  rfl

theorem validate_params (o : Options) : validate o.params = .ok o := by
  obtain ⟨p, hb, hn, hl, hp⟩ := o
  simp [validate, hb, hn, hl, hp]

theorem exists_validate_iff (p : DecodingParams) : (∃ o, validate p = .ok o) ↔ p.Valid := by
  constructor
  · intro ⟨o, h⟩
    rw [← params_of_validate h]
    exact o.valid
  · intro h
    exact ⟨⟨p, h⟩, validate_params ⟨p, h⟩⟩

def default : Options :=
  ⟨{}, ⟨by decide, by decide, by decide, by decide⟩⟩

instance : Inhabited Options := ⟨default⟩

instance : DecidableEq Options := fun a b =>
  decidable_of_iff (a.params = b.params)
    ⟨fun h => by cases a; cases b; cases h; rfl, fun h => by rw [h]⟩

end Options

end DecodingDesk
