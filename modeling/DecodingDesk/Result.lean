import DecodingDesk.Model.Output
/-!
# Results

What callers get for a batch: one `ItemResult` for each item, which holds
the hypotheses for that item with their scores and, if the model computed it, their
attention.  A result is built from a model's answer; an answer with too few scores
or too few matrices has none.
-/

namespace DecodingDesk

open Model (Matrix Output)

structure Hypothesis where
  /-- greater is more probable -/
  score : Float32
  tokens : Item
  attention : Option Matrix := none
deriving DecidableEq, Repr, Inhabited

/-- The hypotheses for one item, best first. -/
structure ItemResult where
  hypotheses : List Hypothesis := []
deriving DecidableEq, Repr, Inhabited

/-- One result for each item of a batch, in the same order. -/
structure BatchResult where
  results : List ItemResult := []
deriving DecidableEq, Repr, Inhabited

namespace ItemResult

def best? (r : ItemResult) : Option Hypothesis :=
  r.hypotheses.head?

def hasAttention (r : ItemResult) : Bool :=
  r.best?.any fun h => h.attention.isSome

/-- The attention of each hypothesis of an answer, as far as there is any. -/
def attentions (o : Output) : List (Option Matrix) :=
  match o.attention with
  | none => List.replicate o.hypotheses.length none
  | some ms => ms.map some

/-- The result for an item, from the model's answer.  Scores and matrices beyond the number
of hypotheses are left out; missing ones are a fault. -/
def ofOutput (o : Output) : Except Fault ItemResult :=
  let count := o.hypotheses.length
  if o.scores.length < count then .error (.scoresMissing o.scores.length count)
  else if (attentions o).length < count then
    .error (.attentionMissing (attentions o).length count)
  else
    .ok ⟨((o.hypotheses.zip o.scores).zip (attentions o)).map fun
      ((tokens, score), attention) => { score, tokens, attention }⟩

end ItemResult

namespace BatchResult

def ofOutputs (os : List Output) : Except Fault BatchResult :=
  (os.mapM ItemResult.ofOutput).map BatchResult.mk

/-- The result for the item at an index that must be in range. -/
def get (b : BatchResult) (index : Nat) : Except Fault ItemResult :=
  match b.results[index]? with
  | some r => .ok r
  | none => .error (.indexOutOfBounds b.results.length index)

end BatchResult

end DecodingDesk
