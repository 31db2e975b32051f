import DecodingDesk.Service
/-!
# A call by itself

What a call for a batch returns when nobody else uses the service.  It depends on
the model, the batch and the parameters, and on nothing else.
-/

namespace DecodingDesk.Service

/-- What a call for a batch returns by itself. -/
def alone (model : Model) (tokens : Option Batch) (params : DecodingParams) : CallReply :=
  match Options.validate params with
  | .error e => .error (.error (.options e))
  | .ok options =>
    match Batch.ofOption tokens with
    | [] => .ok (.results {})
    | batch => batchReply (Pool.answerAlone model options batch)

end DecodingDesk.Service
