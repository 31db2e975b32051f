import DecodingDesk.Model.Scripted
import DecodingDesk.Document.Run
import DecodingDesk.Pool.Log
/-!
# Sessions with a pool

A session plays steps in turn on one pool with a scripted model.  Between steps the
pool does what it can; only calls that are held up wait for a step.
-/

namespace DecodingDesk.Pool

open Model (Script)

/-- A pool with a script, files, and names for jobs. -/
structure Session where
  script : Script
  pool : Pool
  files : Files
  jobs : List (String × Nat) := []
  released : List String := []
  /-- whether no call is held up any more -/
  isOpen : Bool := false

inductive SessionStep where
  | post (name : String) (batch : Batch) (params : DecodingParams)
  | wait (name : String)
  | forget (name : String)
  | release (name : String)
  | state
  | log
  | document (input output : String) (batchSize : Nat) (params : DecodingParams)
      (withScores : Option Bool)
  | read (path : String)
  | drop

inductive SessionReply where
  | nothing
  /-- whether there was something with the name -/
  | found (b : Bool)
  | refused (e : OptionsError)
  | job (r : Pool.Reply)
  | state (size pending holding calls : Nat)
  | log (batches : List Batch)
  | lines (r : Except Failure Nat)
  | content (files : Files) (path : String)

namespace Session

def held (s : Session) (job : Job) : Bool :=
  !s.isOpen && s.script.isHeld s.released job.batch

def settle (s : Session) : Session :=
  { s with pool := s.pool.settle s.script.model s.held }

def running (p : Pool) : Nat :=
  p.workers.countP fun w =>
    match w with
    | .running _ => true
    | _ => false

def play (s : Session) : SessionStep → Session × SessionReply
  | .post name batch params =>
    match Options.validate params with
    | .error e => (s, .refused e)
    | .ok options =>
      let id := s.pool.posted.length
      let pool := (s.pool.step? (.post batch options)).getD s.pool
      ({ s with pool, jobs := (name, id) :: s.jobs }, .nothing)
  | .wait name =>
    let s := s.settle
    match s.jobs.lookup name with
    | none => (s, .nothing)
    | some id =>
      match s.pool.future? id with
      | none => (s, .nothing)
      | some r => ({ s with jobs := s.jobs.filter fun j => j.1 ≠ name }, .job r)
  | .forget name =>
    match s.jobs.lookup name with
    | none => (s, .found false)
    | some id =>
      let pool := (s.pool.step? (.forget id)).getD s.pool
      ({ s with pool, jobs := s.jobs.filter fun j => j.1 ≠ name }, .found true)
  | .release name => ({ s with released := name :: s.released }, .nothing)
  | .state =>
    let s := s.settle
    (s, .state s.pool.size s.pool.queue.length (running s.pool) s.pool.called.length)
  | .log =>
    let s := s.settle
    (s, .log s.pool.log)
  | .document input output batchSize params withScores =>
    match Options.validate params with
    | .error e => (s, .refused e)
    | .ok options =>
      let request : Document.Request :=
        { input, output, batchSize, options, withScores := withScores.getD params.withScores }
      let (task, pool, files) :=
        Document.Task.run s.script.model s.held request s.pool s.files
      match task.result? with
      | none => ({ s with pool, files }, .nothing)
      | some r => ({ s with pool, files }, .lines r)
  | .read path => (s, .content s.files path)
  | .drop =>
    let s := { s with isOpen := true }.settle
    ({ s with pool := s.pool.shut s.script.model }, .nothing)

end Session

end DecodingDesk.Pool
