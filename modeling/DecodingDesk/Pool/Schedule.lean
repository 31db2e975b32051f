import DecodingDesk.Pool
/-!
# Running a pool

A model turns a pool into a machine that runs by itself: whatever can happen next
without a caller does happen.  Calls can be held up for a while.  The work that is
left in a pool is a number that each such step makes smaller, so a pool settles
after at most that many steps.
-/

namespace DecodingDesk.Pool

/-- What a worker can do by itself. -/
def workerAction? (model : Model) (held : Job → Bool) (i : Nat) : Worker → Option Action
  | .ready | .woken => some (.look i)
  | .running job => if held job then none else some (.finish i (model job.batch job.options))
  | _ => none

/-- The first worker that can do something, and what. -/
def workersAction? (model : Model) (held : Job → Bool) (p : Pool) : Option Action :=
  p.workers.zipIdx.findSome? fun w => workerAction? model held w.2 w.1

def nextAction? (model : Model) (held : Job → Bool) (p : Pool) : Option Action :=
  if 0 < p.unnotified then some (.notify (p.workers.idxOf? .asleep))
  else if p.phase = .closed then some .wakeAll
  else workersAction? model held p

def advance? (model : Model) (held : Job → Bool) (p : Pool) : Option Pool :=
  (nextAction? model held p).bind p.step?

/-- The steps that a worker can still take before it sleeps or is gone. -/
def Worker.work : Worker → Nat
  | .running _ => 2
  | .ready | .woken => 1
  | _ => 0

def work (p : Pool) : Nat :=
  2 * p.queue.length + 2 * p.unnotified + p.workers.foldr (fun w n => w.work + n) 0 +
    if p.phase = .closed then p.workers.length + 1 else 0

/-- Steps without a caller while there are any, but at most so many. -/
def advance (model : Model) (held : Job → Bool) : Nat → Pool → Pool
  | 0, p => p
  | n + 1, p =>
    match advance? model held p with
    | none => p
    | some p => advance model held n p

/-- The pool when everything has happened that can happen without a caller. -/
def settle (model : Model) (held : Job → Bool) (p : Pool) : Pool :=
  advance model held p.work p

def shut (model : Model) (p : Pool) : Pool :=
  let closed := (p.step? .close).getD p
  let settled := settle model (fun _ => false) closed
  (settled.step? .join).getD settled

end DecodingDesk.Pool
