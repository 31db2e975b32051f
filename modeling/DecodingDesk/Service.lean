import DecodingDesk.Model.Loader
import DecodingDesk.Document.Task
import DecodingDesk.Gate
import DecodingDesk.Result
/-!
# The service

A service owns a pool around one loaded model and a gate through which every call
goes that waits for the engine.  Calls are for a batch in memory or for a document; a
document is worked on by a task of its own, which also holds the pool and goes on
when its caller gives up.  A task gives up the pool before it leaves the gate.
Whoever gives up the pool last closes it and waits for its workers.

The state and the steps stand here; a step is one thing that happens at once.
-/

namespace DecodingDesk

namespace Service

inductive CallSpec where
  | batch (tokens : Option Batch) (params : DecodingParams)
  | document (input output : String) (batchSize : Nat) (params : DecodingParams)
deriving DecidableEq

inductive CallValue where
  | results (r : BatchResult)
  /-- the number of lines done -/
  | lines (n : Nat)
deriving DecidableEq, Repr

abbrev CallReply := Except Failure CallValue

inductive CallStage where
  /-- made, but never looked at -/
  | created
  /-- its job is posted, and it is about to enter the gate -/
  | entering (job : Nat)
  /-- inside the gate, waiting for its job -/
  | waiting (job : Nat)
  /-- waiting for its task -/
  | blocked (task : Nat)
  | returned (r : CallReply)
  /-- given up by its caller -/
  | abandoned

structure Call where
  spec : CallSpec
  stage : CallStage := .created

namespace Call

/-- Whether the call still uses the service. -/
def isActive (c : Call) : Bool :=
  match c.stage with
  | .returned _ | .abandoned => false
  | _ => true

end Call

inductive TaskStage where
  | working (task : Document.Task)
  /-- about to give up the pool -/
  | releasing (result : Except Failure Nat)
  /-- has closed the pool and waits for its workers -/
  | closing (result : Except Failure Nat)
  /-- about to leave the gate -/
  | leaving (result : Except Failure Nat)
  | ended (result : Except Failure Nat)

namespace TaskStage

def holdsPool : TaskStage → Bool
  | working _ | releasing _ => true
  | _ => false

end TaskStage

inductive Teardown where
  /-- waits until nobody is inside the gate -/
  | shutdown
  /-- gives up the pool at once -/
  | drop
deriving DecidableEq, Repr

inductive Handle where
  | serving
  /-- waits at the gate, as the waiter with a number -/
  | draining (waiter : Nat)
  /-- about to give up the pool -/
  | releasing (how : Teardown)
  /-- has closed the pool and waits for its workers -/
  | closing (how : Teardown)
  | ended (how : Teardown)
deriving DecidableEq, Repr

namespace Handle

def holdsPool : Handle → Bool
  | serving | draining _ | releasing _ => true
  | _ => false

end Handle

end Service

structure Service where
  model : Model
  device : Device
  deviceIndex : UInt64
  pool : Pool
  gate : Gate := {}
  files : Files
  calls : List Service.Call := []
  tasks : List Service.TaskStage := []
  handle : Service.Handle := .serving

namespace Service

def owners (s : Service) : Nat :=
  s.tasks.countP TaskStage.holdsPool + if s.handle.holdsPool then 1 else 0

def setCall (s : Service) (i : Nat) (stage : CallStage) : Service :=
  { s with calls := s.calls.modify i fun c => { c with stage } }

def setTask (s : Service) (j : Nat) (stage : TaskStage) : Service :=
  { s with tasks := s.tasks.set j stage }

def failCall (s : Service) (i : Nat) (e : Error) : Service :=
  s.setCall i (.returned (.error (.error e)))

/-- A call for a batch is looked at for the first time.  Parameters are checked before the
batch is looked at, and an empty batch never reaches the engine. -/
def startBatch (s : Service) (i : Nat) (tokens : Option Batch) (params : DecodingParams) :
    Service :=
  match Options.validate params with
  | .error e => s.failCall i (.options e)
  | .ok options =>
    let batch := Batch.ofOption tokens
    if batch.isEmpty then s.setCall i (.returned (.ok (.results {})))
    else
      { s with pool := s.pool.post batch options }.setCall i (.entering s.pool.posted.length)

/-- A call for a document is looked at for the first time.  Its task enters the gate. -/
def startDocument (s : Service) (i : Nat) (input output : String) (batchSize : Nat)
    (params : DecodingParams) : Service :=
  match Options.validate params with
  | .error e => s.failCall i (.options e)
  | .ok options =>
    if batchSize = 0 then s.failCall i (.options .zeroBatchSize)
    else
      let request : Document.Request :=
        { input, output, batchSize, options, withScores := params.withScores }
      { s with
        gate := s.gate.enter
        tasks := s.tasks ++ [TaskStage.working { request }] }.setCall i (.blocked s.tasks.length)

def batchReply : Pool.Reply → CallReply
  | .error e => .error (.error (.engine e))
  | .ok os =>
    match BatchResult.ofOutputs os with
    | .ok r => .ok (.results r)
    | .error f => .error (.fault f)

/-- What a caller gets for the result of its task.  A fault of the task becomes an error. -/
def taskReply : Except Failure Nat → CallReply
  | .ok n => .ok (.lines n)
  | .error (.error e) => .error (.error e)
  | .error (.fault _) => .error (.error (.engine .taskPanicked))

def poll? (s : Service) (i : Nat) : Option Service := do
  let c ← s.calls[i]?
  match c.stage with
  | .created =>
    match c.spec with
    | .batch tokens params => some (s.startBatch i tokens params)
    | .document input output batchSize params =>
      some (s.startDocument i input output batchSize params)
  | .entering job => some ({ s with gate := s.gate.enter }.setCall i (.waiting job))
  | .waiting job =>
    let r ← s.pool.future? job
    some ({ s with gate := s.gate.leave }.setCall i (.returned (batchReply r)))
  | .blocked j =>
    match s.tasks[j]? with
    | some (.ended r) => some (s.setCall i (.returned (taskReply r)))
    | _ => none
  | _ => none

/-- A caller gives up.  A call for a batch leaves the gate; its job and its task go on. -/
def abandon? (s : Service) (i : Nat) : Option Service := do
  let c ← s.calls[i]?
  match c.stage with
  | .created | .blocked _ => some (s.setCall i .abandoned)
  | .waiting job =>
    let pool ← s.pool.step? (.forget job)
    some ({ s with pool, gate := s.gate.leave }.setCall i .abandoned)
  | _ => none

/-- A step of the one who closed the pool: the sleepers are woken, then the workers joined. -/
def closePool? (p : Pool) : Option Pool :=
  (p.step? .wakeAll) <|> (p.step? .join)

def work? (s : Service) (j : Nat) : Option Service := do
  match ← s.tasks[j]? with
  | .working task =>
    let (task, pool, files) ← task.step? s.pool s.files
    let stage := match task.result? with
      | some r => .releasing r
      | none => .working task
    some ({ s with pool, files }.setTask j stage)
  | .releasing r =>
    if s.owners = 1 then
      let pool ← s.pool.step? .close
      some ({ s with pool }.setTask j (.closing r))
    else some (s.setTask j (.leaving r))
  | .closing r =>
    let pool ← closePool? s.pool
    let stage := if pool.phase = Pool.Phase.joined then TaskStage.leaving r else .closing r
    some ({ s with pool }.setTask j stage)
  | .leaving r =>
    let gate ← s.gate.decrement?
    some ({ s with gate }.setTask j (.ended r))
  | .ended _ => none

/-- The owner begins to end the service, which no call may be using any more. -/
def end? (s : Service) (how : Teardown) : Option Service :=
  if s.handle = .serving ∧ s.calls.all (fun c => !c.isActive) then
    match how with
    | .shutdown =>
      some { s with gate := s.gate.addWaiter, handle := .draining s.gate.waiters.length }
    | .drop => some { s with handle := .releasing .drop }
  else none

def teardown? (s : Service) : Option Service :=
  match s.handle with
  | .draining w =>
    if s.gate.waiters[w]? = some .done then some { s with handle := .releasing .shutdown }
    else (s.gate.stepWaiter? w).map fun gate => { s with gate }
  | .releasing how =>
    if s.owners = 1 then
      (s.pool.step? .close).map fun pool => { s with pool, handle := .closing how }
    else some { s with handle := .ended how }
  | .closing how =>
    (closePool? s.pool).map fun pool =>
      { s with pool, handle := if pool.phase = Pool.Phase.joined then .ended how else .closing how }
  | _ => none

inductive Action where
  | call (spec : CallSpec)
  | poll (i : Nat)
  | abandon (i : Nat)
  | work (j : Nat)
  | notifyWorker (sleeper : Option Nat)
  | look (worker : Nat)
  | finish (worker : Nat) (outcome : Model.Outcome)
  /-- a visitor that made the counter zero wakes the waiters -/
  | notifyGate
  | beginEnd (how : Teardown)
  | teardown

/-- The service after an action, if the action is possible.  Only a serving service takes
calls. -/
def step? (s : Service) : Action → Option Service
  | .call spec =>
    if s.handle = .serving then some { s with calls := s.calls ++ [{ spec }] } else none
  | .poll i => s.poll? i
  | .abandon i => s.abandon? i
  | .work j => s.work? j
  | .notifyWorker sleeper => (s.pool.step? (.notify sleeper)).map fun pool => { s with pool }
  | .look i => (s.pool.step? (.look i)).map fun pool => { s with pool }
  | .finish i outcome =>
    (s.pool.step? (.finish i outcome)).map fun pool => { s with pool }
  | .notifyGate => s.gate.notify?.map fun gate => { s with gate }
  | .beginEnd how => s.end? how
  | .teardown => s.teardown?

def Follows (s : Service) : Action → Prop
  | .finish i outcome => s.pool.Follows s.model (.finish i outcome)
  | _ => True

end Service

end DecodingDesk
