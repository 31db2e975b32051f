import DecodingDesk.Gate
import DecodingDesk.Error
/-!
# Visits through the gate

Three kinds of visit keep the counter up: a guard until it is dropped, a future
that was run through the gate from its first poll until it is completed or dropped,
and blocking work from the moment the runtime takes it until it ends, whether or
not anybody still waits for its result.  Futures that were never polled count for
nothing, and work that the runtime refuses leaves at once.
-/

namespace DecodingDesk.Gate

/-- How far a future is that was run through the gate. -/
inductive Run where
  | created
  | inside
  | over
deriving DecidableEq, Repr, Inhabited

inductive Ending (α : Type) where
  | value (a : α)
  | error (e : Error)
  | panic
deriving DecidableEq, Repr

def Ending.answer {α : Type} : Ending α → Except Error α
  | value a => .ok a
  | error e => .error e
  | panic => .error (.engine .taskPanicked)

inductive Work (α : Type) where
  | unsent
  | running
  | refused
  | ended (e : Ending α)
deriving DecidableEq, Repr

/-- Blocking work and the future that waits for it. -/
structure Blocking (α : Type) where
  caller : Run := .created
  work : Work α := .unsent
deriving DecidableEq, Repr

structure House (α : Type) where
  gate : Gate := {}
  guards : Nat := 0
  runs : List Run := []
  blockings : List (Blocking α) := []
deriving DecidableEq, Repr

inductive Yield (α : Type) where
  | value (a : α)
  | answer (r : Except Error α)
  | drained

/-- What can be done at a house.  Futures are named by the order in which they were made. -/
inductive Op (α : Type) where
  | enter
  | dropGuard
  | createRun
  /-- polls a future; `inner` is what the future inside it answers, if it is ready -/
  | pollRun (i : Nat) (inner : Option α)
  | dropRun (i : Nat)
  | createBlocking
  /-- polls a future; `accepts` says whether the runtime takes blocking work -/
  | pollBlocking (i : Nat) (accepts : Bool)
  | endWork (i : Nat) (e : Ending α)
  | dropBlocking (i : Nat)
  | createDrained
  | pollDrained (i : Nat)
  | dropDrained (i : Nat)

namespace House

variable {α : Type}

def pollRun (h : House α) (i : Nat) (inner : Option α) : House α × Option (Yield α) :=
  match h.runs[i]?, inner with
  | some .created, none => ({ h with gate := h.gate.enter, runs := h.runs.set i .inside }, none)
  | some .created, some a =>
    ({ h with gate := h.gate.enter.leave, runs := h.runs.set i .over }, some (.value a))
  | some .inside, some a =>
    ({ h with gate := h.gate.leave, runs := h.runs.set i .over }, some (.value a))
  | _, _ => (h, none)

def dropRun (h : House α) (i : Nat) : House α :=
  match h.runs[i]? with
  | some .created => { h with runs := h.runs.set i .over }
  | some .inside => { h with gate := h.gate.leave, runs := h.runs.set i .over }
  | _ => h

/-- Polls a future that waits for blocking work.  The first poll hands the work over. -/
def pollBlocking (h : House α) (i : Nat) (accepts : Bool) : House α × Option (Yield α) :=
  match h.blockings[i]? with
  | some ⟨.created, _⟩ =>
    if accepts then
      ({ h with gate := h.gate.enter, blockings := h.blockings.set i ⟨.inside, .running⟩ }, none)
    else
      ({ h with
          gate := h.gate.enter.leave
          blockings := h.blockings.set i ⟨.over, .refused⟩ },
        some (.answer (.error (.engine .taskRefused))))
  | some ⟨.inside, .ended e⟩ =>
    ({ h with blockings := h.blockings.set i ⟨.over, .ended e⟩ }, some (.answer e.answer))
  | _ => (h, none)

/-- Running work ends, and leaves the gate however it ends. -/
def endWork (h : House α) (i : Nat) (e : Ending α) : House α :=
  match h.blockings[i]? with
  | some ⟨caller, .running⟩ =>
    { h with gate := h.gate.leave, blockings := h.blockings.set i ⟨caller, .ended e⟩ }
  | _ => h

/-- Drops a future that waits for blocking work.  The work goes on. -/
def dropBlocking (h : House α) (i : Nat) : House α :=
  match h.blockings[i]? with
  | some b => { h with blockings := h.blockings.set i { b with caller := .over } }
  | none => h

def pollDrained (h : House α) (i : Nat) : House α × Option (Yield α) :=
  match h.gate.waiters[i]? with
  | some .done => (h, none)
  | _ =>
    let gate := h.gate.pollWaiter i
    ({ h with gate }, if gate.waiters[i]? = some .done then some .drained else none)

/-- The house after an operation, and what a future answered in it. -/
def apply (h : House α) : Op α → House α × Option (Yield α)
  | .enter => ({ h with gate := h.gate.enter, guards := h.guards + 1 }, none)
  | .dropGuard =>
    if h.guards = 0 then (h, none)
    else ({ h with gate := h.gate.leave, guards := h.guards - 1 }, none)
  | .createRun => ({ h with runs := h.runs ++ [.created] }, none)
  | .pollRun i inner => h.pollRun i inner
  | .dropRun i => (h.dropRun i, none)
  | .createBlocking => ({ h with blockings := h.blockings ++ [{}] }, none)
  | .pollBlocking i accepts => h.pollBlocking i accepts
  | .endWork i e => (h.endWork i e, none)
  | .dropBlocking i => (h.dropBlocking i, none)
  | .createDrained => ({ h with gate := h.gate.addWaiter }, none)
  | .pollDrained i => h.pollDrained i
  | .dropDrained i => ({ h with gate := h.gate.dropWaiter i }, none)

def applyAll (h : House α) (ops : List (Op α)) : House α :=
  ops.foldl (fun h op => (h.apply op).1) h

def isRunning (b : Blocking α) : Bool :=
  match b.work with
  | .running => true
  | _ => false

/-- The visits in progress, counted one by one. -/
def visits (h : House α) : Nat :=
  h.guards + h.runs.count .inside + h.blockings.countP isRunning

end House

end DecodingDesk.Gate
