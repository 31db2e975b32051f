/-!
# The gate

A counter of visits in progress, on which callers can wait until it is zero.
Leaving is two steps: the visitor takes itself off the counter, and if that made
the counter zero it then wakes the waiters.  A waiter registers, reads the counter,
and either is done or sleeps until it is woken; waking reaches exactly the waiters
that are registered at that moment.
-/

namespace DecodingDesk

/-- How far a caller is that waits for the counter to be zero. -/
inductive Waiter where
  /-- about to register -/
  | idle
  /-- registered, and about to read the counter -/
  | registered (woken : Bool)
  /-- has read a counter that was not zero, and sleeps unless woken -/
  | parked (woken : Bool)
  | done
  /-- given up by its caller -/
  | gone
deriving DecidableEq, Repr, Inhabited

namespace Waiter

def wake : Waiter → Waiter
  | registered _ => registered true
  | parked _ => parked true
  | w => w

/-- One step of a waiter, which sees the counter only when it reads it. -/
def step? (count : Nat) : Waiter → Option Waiter
  | idle => some (registered false)
  | registered woken => some (if count = 0 then done else parked woken)
  | parked true => some idle
  | _ => none

def advance (count : Nat) : Nat → Waiter → Waiter
  | 0, w => w
  | n + 1, w =>
    match w.step? count with
    | none => w
    | some w => w.advance count n

/-- The waiter after its caller has looked at it.  Five steps lead from every state to one
without further steps. -/
def poll (count : Nat) (w : Waiter) : Waiter :=
  w.advance count 5

end Waiter

structure Gate where
  inFlight : Nat := 0
  /-- visitors that have made the counter zero and have still to wake the waiters -/
  owed : Nat := 0
  waiters : List Waiter := []
deriving DecidableEq, Repr, Inhabited

namespace Gate

def enter (g : Gate) : Gate :=
  { g with inFlight := g.inFlight + 1 }

/-- The first half of leaving.  Nobody leaves a gate in which nobody is. -/
def decrement? (g : Gate) : Option Gate :=
  match g.inFlight with
  | 0 => none
  | n + 1 => some { g with inFlight := n, owed := if n = 0 then g.owed + 1 else g.owed }

/-- The second half of leaving, for a visitor that made the counter zero. -/
def notify? (g : Gate) : Option Gate :=
  match g.owed with
  | 0 => none
  | n + 1 => some { g with owed := n, waiters := g.waiters.map Waiter.wake }

/-- A visit ends: both halves of leaving at once. -/
def leave (g : Gate) : Gate :=
  match g.decrement? with
  | none => g
  | some g' => if g'.inFlight = 0 then g'.notify?.getD g' else g'

theorem inFlight_leave (g : Gate) : g.leave.inFlight = g.inFlight - 1 := by
  unfold leave decrement?
  cases hn : g.inFlight with
  | zero => simp [hn]
  | succ n =>
    cases n with
    | zero => simp [notify?]
    | succ n => simp

theorem inFlight_decrement? {g g' : Gate} (h : g.decrement? = some g') :
    g.inFlight = g'.inFlight + 1 := by
  unfold decrement? at h
  split at h
  · cases h
  · rename_i n hn
    cases h
    exact hn

theorem waiters_decrement? {g g' : Gate} (h : g.decrement? = some g') :
    g'.waiters = g.waiters := by
  unfold decrement? at h
  split at h <;> cases h
  rfl

theorem inFlight_notify? {g g' : Gate} (h : g.notify? = some g') :
    g'.inFlight = g.inFlight := by
  unfold notify? at h
  split at h <;> cases h
  rfl

theorem waiters_notify? {g g' : Gate} (h : g.notify? = some g') :
    g'.waiters = g.waiters.map Waiter.wake := by
  unfold notify? at h
  split at h <;> cases h
  rfl

def addWaiter (g : Gate) : Gate :=
  { g with waiters := g.waiters ++ [.idle] }

def stepWaiter? (g : Gate) (i : Nat) : Option Gate := do
  let w ← g.waiters[i]?
  let w ← w.step? g.inFlight
  return { g with waiters := g.waiters.set i w }

theorem stepWaiter?_eq_some {g g' : Gate} {i : Nat} (h : g.stepWaiter? i = some g') :
    ∃ w w', g.waiters[i]? = some w ∧ w.step? g.inFlight = some w' ∧
      g' = { g with waiters := g.waiters.set i w' } := by
  unfold stepWaiter? at h
  obtain ⟨w, hw, h⟩ := Option.bind_eq_some_iff.mp h
  obtain ⟨w', hw', h⟩ := Option.bind_eq_some_iff.mp h
  cases h
  exact ⟨w, w', hw, hw', rfl⟩

def pollWaiter (g : Gate) (i : Nat) : Gate :=
  { g with waiters := g.waiters.modify i (Waiter.poll g.inFlight) }

def dropWaiter (g : Gate) (i : Nat) : Gate :=
  { g with waiters := g.waiters.set i .gone }

inductive Action where
  | enter
  | decrement
  | notify
  | addWaiter
  | stepWaiter (i : Nat)
  | dropWaiter (i : Nat)
deriving DecidableEq, Repr

def step? (g : Gate) : Action → Option Gate
  | .enter => some g.enter
  | .decrement => g.decrement?
  | .notify => g.notify?
  | .addWaiter => some g.addWaiter
  | .stepWaiter i => g.stepWaiter? i
  | .dropWaiter i => some (g.dropWaiter i)

inductive Reachable : Gate → Prop where
  | initial : Reachable {}
  | step {g g' : Gate} (a : Action) : Reachable g → g.step? a = some g' → Reachable g'

end Gate

end DecodingDesk
