import DecodingDesk.Pool.Schedule
/-!
# Making a pool

The workers of a pool are started one after the other, each on a thread that the system
may refuse.  At the first refusal the workers that were started are shut down again, and
the error says which worker got no thread, and why.
-/

namespace DecodingDesk.Pool

/-- What the system answers when it is asked for a thread for the worker with a number: nothing
if it grants one, else the reason why it does not. -/
abbrev Threads := Nat → Option String

/-- Every worker gets a thread. -/
def Threads.granted : Threads := fun _ => none

/-- One more worker is started. -/
def hire (p : Pool) : Pool :=
  { p with workers := p.workers ++ [.ready] }

/-- Starts so many more workers, up to the first that gets no thread. -/
def staff (threads : Threads) : Nat → Pool → Pool × Option EngineError
  | 0, p => (p, none)
  | n + 1, p =>
    match threads p.size with
    | some reason => (p, some (.threadRefused p.size reason))
    | none => staff threads n p.hire

/-- What came of making a pool, and what became of its workers. -/
structure Making where
  /-- how many workers were started -/
  started : Nat := 0
  /-- the workers that were started in vain, after they have been shut down again -/
  dismissed : Option Pool := none
  result : Except Failure Pool

/-- Makes a pool of so many workers.  The room for that many is needed before the first is
started. -/
def make (threads : Threads) (model : Model) (size : Nat) : Making :=
  if size = 0 then { result := .error (.error (.engine .emptyPool)) }
  else if fitsMemory size then
    match staff threads size (start 0) with
    | (p, none) => { started := p.size, result := .ok p }
    | (p, some e) =>
      { started := p.size
        dismissed := some (shut model p)
        result := .error (.error (.engine e)) }
  else { result := .error (.fault .capacityOverflow) }

/-- A pool of so many workers where each gets its thread.  None is started in vain, so no model
is needed to shut it down. -/
def create? (size : Nat) : Except Failure Pool :=
  (make .granted (fun _ _ => .outputs []) size).result

end DecodingDesk.Pool
