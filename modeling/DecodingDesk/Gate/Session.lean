import DecodingDesk.Gate.House
/-!
# Sessions at a gate

A session gives names to guards and futures and plays steps in turn.  What a future
will answer is fixed when it is made; whether it is ready to answer is a switch that
can be set later, also after the future has been given up.  Blocking work that is
ready ends only when somebody waits for it or for the counter.
-/

namespace DecodingDesk.Gate

variable {α : Type}

inductive Target where
  | run (i : Nat)
  | blocking (i : Nat)
  | drained (i : Nat)
deriving DecidableEq, Repr

/-- What is fixed when a future is run through the gate, and its switch. -/
structure RunPlan (α : Type) where
  value : α
  ready : Bool

/-- What is fixed when blocking work is made, and its switch. -/
structure BlockingPlan (α : Type) where
  ending : Ending α
  accepts : Bool
  ready : Bool

structure Session (α : Type) where
  house : House α := {}
  guards : List String := []
  /-- the futures that somebody holds -/
  held : List (String × Target) := []
  /-- the future that each name stood for last -/
  latest : List (String × Target) := []
  runPlans : List (RunPlan α) := []
  blockingPlans : List (BlockingPlan α) := []

inductive SessionStep (α : Type) where
  | enter (name : String)
  | leave (name : String)
  | run (name : String) (value : α) (ready : Bool)
  | block (name : String) (ending : Ending α) (accepts ready : Bool)
  | drained (name : String)
  | poll (name : String)
  | await (name : String)
  | forget (name : String)
  | ready (name : String)
  | until (count : Nat)

inductive Reply (α : Type) where
  | nothing
  /-- whether there was something with the name -/
  | found (b : Bool)
  | pending
  | yield (y : Yield α)

namespace Session

def act (s : Session α) (op : Op α) : Session α × Option (Yield α) :=
  let r := s.house.apply op
  ({ s with house := r.1 }, r.2)

def pollTarget (s : Session α) : Target → Session α × Option (Yield α)
  | .run i =>
    s.act (.pollRun i ((s.runPlans[i]?).bind fun p => if p.ready then some p.value else none))
  | .blocking i => s.act (.pollBlocking i ((s.blockingPlans[i]?).any (·.accepts)))
  | .drained i => s.act (.pollDrained i)

def dropTarget (s : Session α) : Target → Session α
  | .run i => (s.act (.dropRun i)).1
  | .blocking i => (s.act (.dropBlocking i)).1
  | .drained i => (s.act (.dropDrained i)).1

def makeReady (s : Session α) : Target → Session α
  | .run i => { s with runPlans := s.runPlans.modify i fun p => { p with ready := true } }
  | .blocking i =>
    { s with blockingPlans := s.blockingPlans.modify i fun p => { p with ready := true } }
  | .drained _ => s

def endReady (s : Session α) (i : Nat) : Session α :=
  match s.blockingPlans[i]? with
  | some p => if p.ready then (s.act (.endWork i p.ending)).1 else s
  | none => s

/-- Ends ready work in the order in which it was made, until the counter has a value. -/
def endUntil (s : Session α) (count : Nat) : Session α :=
  (List.range s.blockingPlans.length).foldl
    (fun s i => if s.house.gate.inFlight = count then s else s.endReady i) s

def endAll (s : Session α) : Session α :=
  (List.range s.blockingPlans.length).foldl endReady s

def release (s : Session α) (name : String) : Session α :=
  { s with held := s.held.filter fun n => n.1 ≠ name }

/-- A name gets a new future; one that it held before is given up. -/
def hold (s : Session α) (name : String) (target : Target) : Session α :=
  let s := match s.held.lookup name with
    | some old => (s.dropTarget old).release name
    | none => s
  { s with held := (name, target) :: s.held, latest := (name, target) :: s.latest }

/-- Polls what a name holds.  A future that answers is then gone. -/
def poll (s : Session α) (name : String) : Session α × Reply α :=
  match s.held.lookup name with
  | none => (s, .nothing)
  | some target =>
    match s.pollTarget target with
    | (s, none) => (s, .pending)
    | (s, some y) => (s.release name, .yield y)

/-- Makes what a name holds ready, starts it, lets its work end, and takes its answer. -/
def await (s : Session α) (name : String) : Session α × Reply α :=
  match s.held.lookup name with
  | none => (s, .nothing)
  | some target =>
    match (s.makeReady target).poll name with
    | (s, .pending) =>
      match target with
      | .run _ => (s, .pending)
      | .blocking i => (s.endReady i).poll name
      | .drained _ => s.endAll.poll name
    | done => done

def play (s : Session α) : SessionStep α → Session α × Reply α
  | .enter name =>
    let s := (s.act .enter).1
    if s.guards.contains name then ((s.act .dropGuard).1, .nothing)
    else ({ s with guards := name :: s.guards }, .nothing)
  | .leave name =>
    if s.guards.contains name then
      let s := (s.act .dropGuard).1
      ({ s with guards := s.guards.filter (· ≠ name) }, .found true)
    else (s, .found false)
  | .run name value ready =>
    let i := s.house.runs.length
    let s := (s.act .createRun).1
    let s := { s with runPlans := s.runPlans ++ [RunPlan.mk value ready] }
    (s.hold name (.run i), .nothing)
  | .block name ending accepts ready =>
    let i := s.house.blockings.length
    let s := (s.act .createBlocking).1
    let s := { s with blockingPlans := s.blockingPlans ++ [BlockingPlan.mk ending accepts ready] }
    (s.hold name (.blocking i), .nothing)
  | .drained name =>
    let i := s.house.gate.waiters.length
    let s := (s.act .createDrained).1
    (s.hold name (.drained i), .nothing)
  | .poll name => s.poll name
  | .await name => s.await name
  | .forget name =>
    match s.held.lookup name with
    | none => (s, .found false)
    | some target => ((s.dropTarget target).release name, .found true)
  | .ready name =>
    match s.latest.lookup name with
    | none => (s, .nothing)
    | some target => (s.makeReady target, .nothing)
  | .until count => (s.endUntil count, .nothing)

/-- Plays steps in turn; each reply comes with the counter after its step. -/
def playAll (s : Session α) : List (SessionStep α) → List (Reply α × Nat)
  | [] => []
  | step :: rest =>
    let (s, reply) := s.play step
    (reply, s.house.gate.inFlight) :: s.playAll rest

end Session

end DecodingDesk.Gate
