import DecodingDesk.Pool
/-!
# The log of a pool

The batches with which the model was called.  One worker makes calls in a fixed
order; what order several workers make them in is left to chance, so their log is
sorted: item by item, token by token, by code points.
-/

namespace DecodingDesk

/-- The order of batches in a sorted log. -/
def Batch.compare (a b : Batch) : Ordering :=
  List.compareLex (List.compareLex Ord.compare) a b

namespace Pool

def log (p : Pool) : List Batch :=
  let batches := p.called.map Job.batch
  if 1 < p.size then batches.mergeSort fun a b => (Batch.compare a b).isLE else batches

end Pool

end DecodingDesk
