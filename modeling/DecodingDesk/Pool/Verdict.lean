import DecodingDesk.Model
/-!
# Verdicts

What a worker makes of a call of the model.  Answers are passed on unchanged if
there is one for each item and each keeps to the engine's contract; otherwise the
caller gets the first thing that is wrong.  A panic becomes an error too, unless it
is lethal: then the worker dies and there is no verdict.
-/

namespace DecodingDesk.Pool

open Model (Output Outcome)

abbrev Reply := Except EngineError (List Output)

/-- Checks the answers for a batch: their number first, then each one in turn. -/
def check (items allowed : Nat) (os : List Output) : Reply :=
  if os.length ≠ items then .error (.resultCount os.length items)
  else
    match os.findSome? fun o => o.violation? allowed with
    | some e => .error e
    | none => .ok os

theorem check_eq_ok_iff (items allowed : Nat) (os answered : List Output) :
    check items allowed os = .ok answered ↔
      answered = os ∧ os.length = items ∧ ∀ o ∈ os, o.Conforms allowed := by
  have hall : os.findSome? (fun o => o.violation? allowed) = none ↔
      ∀ o ∈ os, o.Conforms allowed := by
    simp only [List.findSome?_eq_none_iff, Output.violation?_eq_none_iff]
  unfold check
  by_cases hl : os.length = items
  · cases hf : os.findSome? (fun o => o.violation? allowed) with
    | none =>
      simp only [hl, ne_eq, not_true_eq_false, if_false, Except.ok.injEq, true_and]
      exact ⟨fun h => ⟨h.symm, hall.mp hf⟩, fun h => h.1.symm⟩
    | some e =>
      have hnot : ¬ ∀ o ∈ os, o.Conforms allowed := by
        rw [← hall, hf]
        simp
      simp only [hl, ne_eq, not_true_eq_false, if_false, reduceCtorEq, false_iff]
      exact fun h => hnot h.2.2
  · simp [hl]

/-- What a panic that carries no text is called. -/
def unnamedPanic : String := "unknown panic"

/-- The verdict on a call for so many items with at most so many hypotheses each. -/
def verdict (items allowed : Nat) : Outcome → Option Reply
  | .outputs os => some (check items allowed os)
  | .failed e => some (.error e)
  | .panicked (.message text) => some (.error (.panicked text))
  | .panicked .unnamed => some (.error (.panicked unnamedPanic))
  | .panicked .lethal => none

/-- What the caller of a batch gets from a model alone: the verdict on its one call. -/
def answerAlone (model : Model) (options : Options) (batch : Batch) : Reply :=
  (verdict batch.length options.params.numHypotheses.toNat (model batch options)).getD
    (.error .droppedByWorker)

end DecodingDesk.Pool
