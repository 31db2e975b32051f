import DecodingDesk.Error
import DecodingDesk.Batch
/-!
# What a model answers

For each item a model answers hypotheses, best first, with one score each and
perhaps one attention matrix each.  Nothing stops a model from answering parts of
different lengths; `Output.violation?` finds the first rule that an answer breaks.
-/

namespace DecodingDesk.Model

/-- One row for each output token, one weight for each source token. -/
abbrev Matrix := List (List Float32)

structure Output where
  hypotheses : List Item := []
  scores : List Float32 := []
  /-- one matrix for each hypothesis, if the model computed attention -/
  attention : Option (List Matrix) := none
deriving DecidableEq, Repr, Inhabited

namespace Output

/-- The attention matrices; none if the model computed no attention. -/
def matrices (o : Output) : List Matrix :=
  o.attention.getD []

/-- What the engine's contract asks of an answer when at most `allowed` hypotheses are wanted. -/
structure Conforms (o : Output) (allowed : Nat) : Prop where
  count_le : o.hypotheses.length ≤ allowed
  scores_length : o.scores.length = o.hypotheses.length
  attention_length : ∀ ms, o.attention = some ms → ms.length = o.hypotheses.length

/-- The first rule that an answer breaks: the number of hypotheses, of scores, of matrices. -/
def violation? (o : Output) (allowed : Nat) : Option EngineError :=
  let count := o.hypotheses.length
  if allowed < count then some (.hypothesisCount count allowed)
  else if o.scores.length ≠ count then some (.scoreCount o.scores.length count)
  else
    match o.attention with
    | none => none
    | some ms => if ms.length ≠ count then some (.attentionCount ms.length count) else none

theorem violation?_eq_none_iff (o : Output) (allowed : Nat) :
    o.violation? allowed = none ↔ o.Conforms allowed := by
  unfold violation?
  constructor
  · intro h
    by_cases hc : allowed < o.hypotheses.length
    · simp [hc] at h
    by_cases hs : o.scores.length = o.hypotheses.length
    · refine ⟨by omega, hs, ?_⟩
      intro ms hms
      by_cases hm : ms.length = o.hypotheses.length
      · exact hm
      · simp [hc, hs, hms, hm] at h
    · simp [hc, hs] at h
  · intro h
    have hc : ¬ allowed < o.hypotheses.length := by have := h.count_le; omega
    cases ha : o.attention with
    | none => simp [hc, h.scores_length]
    | some ms => simp [hc, h.scores_length, h.attention_length ms ha]

end Output

end DecodingDesk.Model
