import DecodingDesk.Pool.Verdict
/-!
# The worker pool

A fixed number of workers take jobs from one queue, first come first served.  The
state says where each job is and how far each worker is; a step is one thing that
happens at once: a job is put into the queue, a sleeping worker is notified, a
worker looks at the queue, a call of the model ends.  A worker that finds the queue
empty sleeps, or leaves if the pool is closed.  Closing sets a flag, wakes all
sleepers and waits until no worker is left.
-/

namespace DecodingDesk

open Model (Output Outcome)

/-- A batch that has been posted, with the options for all of its items. -/
structure Job where
  id : Nat
  batch : Batch
  options : Options
deriving DecidableEq

def Job.verdict (job : Job) (outcome : Outcome) : Option Pool.Reply :=
  Pool.verdict job.batch.length job.options.params.numHypotheses.toNat outcome

namespace Pool

inductive Worker where
  /-- about to look at the queue -/
  | ready
  /-- found the queue empty and waits for a notification -/
  | asleep
  /-- was notified and has not looked yet -/
  | woken
  | running (job : Job)
  /-- died of the panic of a call for a job -/
  | died (job : Job)
  /-- found the queue empty and closed -/
  | exited
deriving DecidableEq

namespace Worker

def isLive : Worker → Bool
  | died _ | exited => false
  | _ => true

def wake : Worker → Worker
  | asleep => woken
  | w => w

end Worker

inductive Phase where
  | serving
  /-- the flag is set, and the sleepers have still to be woken -/
  | closed
  | notified
  /-- no worker is left -/
  | joined
deriving DecidableEq, Repr

structure Answer where
  job : Job
  outcome : Outcome
  reply : Reply

end Pool

structure Pool where
  /-- all jobs in the order in which they were put into the queue -/
  posted : List Job := []
  /-- the jobs that no worker has taken -/
  queue : List Job := []
  /-- the jobs for which the model was called, in that order -/
  called : List Job := []
  workers : List Pool.Worker
  answers : List Pool.Answer := []
  /-- jobs whose callers have given up waiting -/
  forgotten : List Nat := []
  /-- posts that have still to notify a worker -/
  unnotified : Nat := 0
  phase : Pool.Phase := .serving

namespace Pool

def start (size : Nat) : Pool :=
  { workers := List.replicate size .ready }

/-- The number of workers, dead ones included. -/
def size (p : Pool) : Nat :=
  p.workers.length

inductive Action where
  | post (batch : Batch) (options : Options)
  /-- a post notifies the sleeper with a number, or nobody if nobody sleeps -/
  | notify (sleeper : Option Nat)
  | look (worker : Nat)
  | finish (worker : Nat) (outcome : Outcome)
  | forget (id : Nat)
  | close
  | wakeAll
  | join

/-- Puts a job into the queue of an open pool.  Its number is that of the posts before it. -/
def post (p : Pool) (batch : Batch) (options : Options) : Pool :=
  let job : Job := { id := p.posted.length, batch, options }
  { p with
    posted := p.posted ++ [job]
    queue := p.queue ++ [job]
    unnotified := p.unnotified + 1 }

def notify? (p : Pool) (sleeper : Option Nat) : Option Pool :=
  match p.unnotified, sleeper with
  | 0, _ => none
  | n + 1, none =>
    if p.workers.contains .asleep then none else some { p with unnotified := n }
  | n + 1, some i =>
    if p.workers[i]? = some .asleep then
      some { p with unnotified := n, workers := p.workers.set i .woken }
    else none

/-- A worker looks at the queue: it takes the first job, leaves, or goes to sleep. -/
def look? (p : Pool) (i : Nat) : Option Pool :=
  match p.workers[i]? with
  | some .ready | some .woken =>
    match p.queue with
    | job :: rest =>
      some { p with
        queue := rest
        called := p.called ++ [job]
        workers := p.workers.set i (.running job) }
    | [] =>
      some { p with
        workers := p.workers.set i (if p.phase = .serving then .asleep else .exited) }
  | _ => none

/-- A call of the model ends.  The job is answered, or its worker dies. -/
def finish? (p : Pool) (i : Nat) (outcome : Outcome) : Option Pool :=
  match p.workers[i]? with
  | some (.running job) =>
    match job.verdict outcome with
    | some reply =>
      some { p with
        workers := p.workers.set i .ready
        answers := p.answers ++ [{ job, outcome, reply }] }
    | none => some { p with workers := p.workers.set i (.died job) }
  | _ => none

def step? (p : Pool) : Action → Option Pool
  | .post batch options => if p.phase = .serving then some (p.post batch options) else none
  | .notify sleeper => p.notify? sleeper
  | .look i => p.look? i
  | .finish i outcome => p.finish? i outcome
  | .forget id => some { p with forgotten := id :: p.forgotten }
  | .close => if p.phase = .serving then some { p with phase := .closed } else none
  | .wakeAll =>
    if p.phase = .closed then
      some { p with phase := .notified, workers := p.workers.map Worker.wake }
    else none
  | .join =>
    if p.phase = .notified ∧ p.workers.all (fun w => !w.isLive) then
      some { p with phase := .joined }
    else none

inductive Reachable (size : Nat) : Pool → Prop where
  | start : Reachable size (Pool.start size)
  | step {p p' : Pool} (a : Action) : Reachable size p → p.step? a = some p' → Reachable size p'

/-- Whether an action is one that a model allows: a call of the model comes to what the model
says. -/
def Follows (model : Model) (p : Pool) : Action → Prop
  | .finish i outcome =>
    ∀ job, p.workers[i]? = some (.running job) → outcome = model job.batch job.options
  | _ => True

def isLost (p : Pool) (id : Nat) : Bool :=
  p.workers.any fun w =>
    match w with
    | .died job => job.id = id
    | _ => false

/-- What a job's caller gets, as soon as that is settled: the answer, or an error if the job
went down with its worker or was left in the queue of a pool that is gone. -/
def future? (p : Pool) (id : Nat) : Option Reply :=
  match p.answers.find? fun a => a.job.id = id with
  | some a => some a.reply
  | none =>
    if p.isLost id || (p.phase = .joined && p.queue.any fun job => job.id = id) then
      some (.error .droppedByWorker)
    else none

end Pool

end DecodingDesk
