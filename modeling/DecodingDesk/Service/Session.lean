import DecodingDesk.Pool.Log
import DecodingDesk.Service.Create
import DecodingDesk.Service.Schedule
/-!
# Sessions with a service

A session plays steps in turn on one service with a scripted model.  Between steps
the service does what it can; only calls of the model that are held up wait.
-/

namespace DecodingDesk.Service

open Model (Script Loader)

/-- A loader for a script.  The echo model is loaded by its own loader; a script loads from
everywhere, unless its loader is told to fail. -/
def scriptLoader (echo : Option Model.Echo) (script : Script) (failure : Option String)
    (files : Files) (gpuCount : Nat) : Loader := fun r =>
  match failure, echo with
  | some reason, _ => .error (.stated reason)
  | none, some e => e.loader files gpuCount r
  | none, none => .ok script.model

/-- A service with a script and names for calls. -/
structure Session where
  script : Script
  service : Service
  calls : List (String × Nat) := []
  released : List String := []
  /-- whether no call of the model is held up any more -/
  isOpen : Bool := false

inductive SessionStep where
  | run (spec : CallSpec)
  | all (specs : List CallSpec)
  | start (name : String) (spec : CallSpec)
  | join (name : String)
  | abort (name : String)
  | release (name : String)
  | until (count : Nat)
  | state
  | write (path : String) (content : Text.Bytes)
  | read (path : String)
  | finish (how : Teardown)
  | log

inductive SessionReply where
  | nothing
  /-- whether there was something with the name -/
  | found (b : Bool)
  | call (r : CallReply)
  | calls (rs : List (Option CallReply))
  /-- whether a call ended without reaching the engine -/
  | started (isOver : Bool)
  | state (size : Nat) (device : Device) (index : UInt64) (inFlight : Nat)
  | content (files : Files) (path : String)
  | log (batches : List Batch)

namespace Session

def held (s : Session) (job : Job) : Bool :=
  !s.isOpen && s.script.isHeld s.released job.batch

def settle (s : Session) : Session :=
  { s with service := s.service.settle s.held }

def act (s : Session) (a : Action) : Session :=
  { s with service := s.service.act a }

/-- Makes calls, looks at each of them once, and lets the service do what it can. -/
def begin (s : Session) (specs : List CallSpec) : Session × List Nat :=
  ({ s with service := s.service.begin specs }.settle, s.service.nextCalls specs.length)

def release (s : Session) (name : String) : Session :=
  { s with calls := s.calls.filter fun c => c.1 ≠ name }

def play (s : Session) : SessionStep → Session × SessionReply
  | .run spec =>
    let (s, numbers) := s.begin [spec]
    match numbers.findSome? s.service.reply? with
    | some r => (s, .call r)
    | none => (s, .nothing)
  | .all specs =>
    let (s, numbers) := s.begin specs
    (s, .calls (numbers.map s.service.reply?))
  | .start name spec =>
    let posted := s.service.pool.posted.length
    let i := s.service.calls.length
    let s := (s.begin [spec]).1
    let isOver := (s.service.reply? i).isSome && s.service.pool.posted.length = posted
    ({ s with calls := (name, i) :: s.calls }, .started isOver)
  | .join name =>
    let s := s.settle
    match (s.calls.lookup name).bind s.service.reply? with
    | some r => (s.release name, .call r)
    | none => (s, .nothing)
  | .abort name =>
    match s.calls.lookup name with
    | some i => ((s.act (.abandon i)).release name, .found true)
    | none => (s, .found false)
  | .release name => ({ s with released := name :: s.released }, .nothing)
  | .until _ => (s.settle, .nothing)
  | .state =>
    let s := s.settle
    let v := s.service
    (s, .state v.pool.size v.device v.deviceIndex v.gate.inFlight)
  | .write path content =>
    let files := s.service.files.put path content
    ({ s with service := { s.service with files } }, .nothing)
  | .read path =>
    let s := s.settle
    (s, .content s.service.files path)
  | .finish how =>
    let s := { s with isOpen := true }.settle
    ((s.act (.beginEnd how)).settle, .nothing)
  | .log =>
    let s := s.settle
    (s, .log s.service.pool.log)

end Session

end DecodingDesk.Service
