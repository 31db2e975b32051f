import DecodingDesk.Pool.Schedule
import DecodingDesk.Service
/-!
# Running a service

Everything that can happen without a new call, a caller who gives up or an owner who
ends the service does happen; only calls of the model can be held up.  Calls that are
made together are all looked at once before anything else happens.
-/

namespace DecodingDesk.Service

def ofPoolAction : Pool.Action → Option Action
  | .notify sleeper => some (.notifyWorker sleeper)
  | .look i => some (.look i)
  | .finish i outcome => some (.finish i outcome)
  | _ => none

def waitingCalls (s : Service) : List Nat :=
  s.calls.zipIdx.filterMap fun c =>
    match c.1.stage with
    | .entering _ | .waiting _ | .blocked _ => some c.2
    | _ => none

def openTasks (s : Service) : List Nat :=
  s.tasks.zipIdx.filterMap fun t =>
    match t.1 with
    | .ended _ => none
    | _ => some t.2

/-- What could happen next, in the order in which it is tried. -/
def candidates (held : Job → Bool) (s : Service) : List Action :=
  ((Pool.nextAction? s.model held s.pool).bind ofPoolAction).toList ++ [.notifyGate] ++
    s.waitingCalls.map .poll ++ s.openTasks.map .work ++ [.teardown]

def advance? (held : Job → Bool) (s : Service) : Option Service :=
  (candidates held s).findSome? s.step?

/-- Steps that need nobody while there are any, but at most so many. -/
def advance (held : Job → Bool) : Nat → Service → Service
  | 0, s => s
  | n + 1, s =>
    match advance? held s with
    | none => s
    | some s => advance held n s

/-- A number of steps that a task cannot exceed, with those that it causes in the pool. -/
def TaskStage.work (t : TaskStage) (s : Service) : Nat :=
  match t with
  | .working task => 6 * task.work s.files + s.pool.size + 8
  | .ended _ => 0
  | _ => s.pool.size + 8

/-- A number of steps that the service cannot exceed by itself. -/
def work (s : Service) : Nat :=
  s.pool.work + s.tasks.foldr (fun t n => t.work s + n) 0 + 4 * s.calls.length +
    6 * (s.gate.inFlight + s.gate.owed) + s.pool.size + 16

/-- The service when everything has happened that needs nobody. -/
def settle (held : Job → Bool) (s : Service) : Service :=
  s.advance held s.work

def act (s : Service) (a : Action) : Service :=
  (s.step? a).getD s

def reply? (s : Service) (i : Nat) : Option CallReply :=
  match (s.calls[i]?).map Call.stage with
  | some (.returned r) => some r
  | _ => none

/-- The numbers of the next calls, if so many are made. -/
def nextCalls (s : Service) (count : Nat) : List Nat :=
  List.range' s.calls.length count

/-- Makes calls and looks at each of them once. -/
def begin (s : Service) (specs : List CallSpec) : Service :=
  let made := specs.foldl (fun s spec => s.act (.call spec)) s
  (s.nextCalls specs.length).foldl (fun s i => s.act (.poll i)) made

/-- Makes calls and waits for what they return, with nothing held up. -/
def answerAll (s : Service) (specs : List CallSpec) : Service × List (Option CallReply) :=
  let done := (s.begin specs).settle fun _ => false
  (done, (s.nextCalls specs.length).map done.reply?)

end DecodingDesk.Service
