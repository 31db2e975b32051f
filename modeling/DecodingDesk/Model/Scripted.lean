import DecodingDesk.Model.Echo
/-!
# Scripted models

A model for rehearsals, which answers by rule.  The first token of the first item
chooses the rule.  A rule can hold a call up until a name is released, answer the
same whatever the batch, fail, panic, or echo.
-/

namespace DecodingDesk.Model

inductive Rule where
  /-- these answers, whatever the batch -/
  | outputs (os : List Output)
  | each (o : Output)
  | fail (reason : String)
  | panic (p : Panic)
  /-- waits until the name is released -/
  | hold (name : String) (next : Rule)
  | echo (e : Echo)

namespace Rule

def holds : Rule → List String
  | hold name next => name :: next.holds
  | _ => []

/-- What a call comes to once nothing holds it up. -/
def outcome (batch : Batch) (options : Options) : Rule → Outcome
  | outputs os => .outputs os
  | each o => .outputs (batch.map fun _ => o)
  | fail reason => .failed (.stated reason)
  | panic p => .panicked p
  | hold _ next => next.outcome batch options
  | echo e => e.model batch options

end Rule

/-- Rules for first tokens, and one for all others. -/
structure Script where
  rules : List (String × Rule) := []
  default : Rule := .echo {}

namespace Script

/-- The token that chooses the rule for a batch. -/
def key (batch : Batch) : String :=
  (batch.head?.bind List.head?).getD ""

def rule (s : Script) (batch : Batch) : Rule :=
  (s.rules.lookup (key batch)).getD s.default

def model (s : Script) : Model := fun batch options =>
  (s.rule batch).outcome batch options

/-- Whether a call for a batch is held up while only some names are released. -/
def isHeld (s : Script) (released : List String) (batch : Batch) : Bool :=
  (s.rule batch).holds.any fun name => !released.contains name

end Script

end DecodingDesk.Model
