import DecodingDesk.Model.Output
import DecodingDesk.Options
/-!
# Models

A model is a function from a batch and options to what its call comes to.  A call
can answer, report an error, or panic.  A panic carries a message or something
that is none; a panic whose payload panics again when it is thrown away is lethal
for the worker that made the call.
-/

namespace DecodingDesk

namespace Model

/-- What a panic carries. -/
inductive Panic where
  | message (text : String)
  | unnamed
  | lethal
deriving DecidableEq, Repr

inductive Outcome where
  | outputs (os : List Output)
  | failed (e : EngineError)
  | panicked (p : Panic)
deriving DecidableEq, Repr

end Model

abbrev Model := Batch → Options → Model.Outcome

end DecodingDesk
