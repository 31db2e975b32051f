import DecodingDesk.Proofs.Pool.Closing
import DecodingDesk.Proofs.Pool.Wakeup
/-!
# Order, bound and wake-ups

Jobs are taken in the order in which they were put into the queue, no more of them
are run at once than there are workers alive, and nobody sleeps through work: while
somebody sleeps, each job in the queue has a notification that is still to be given
or still to be acted on, and a closed pool has still to wake the sleepers.
-/

namespace DecodingDesk.Pool

variable {size : Nat} {p p' : Pool} {a : Action}

def Worker.job? : Worker → Option Job
  | running job => some job
  | _ => none

/-- The jobs that are being run, one for each worker that runs one. -/
def running (p : Pool) : List Job :=
  p.workers.filterMap Worker.job?

def live (p : Pool) : Nat :=
  p.workers.countP Worker.isLive

/-- Nobody has still to notify, or to look at the queue after being notified. -/
structure Calm (p : Pool) : Prop where
  unnotified : p.unnotified = 0
  woken : .woken ∉ p.workers
  phase : p.phase ≠ .closed

/-! ## The bound -/

theorem count_running (p : Pool) (job : Job) :
    p.running.count job = p.workers.count (.running job) := by
  rw [running, List.count_filterMap, List.count]
  apply List.countP_congr
  intro w _
  cases w <;> simp [Worker.job?]

theorem Tallied.nodup_running (h : p.Tallied) : p.running.Nodup := by
  rw [List.nodup_iff_count]
  intro job
  have hplaces := h.count_places job
  rw [count_running]
  split at hplaces <;> omega

theorem length_running_le_live (p : Pool) : p.running.length ≤ p.live := by
  rw [running, live, List.length_filterMap_eq_countP]
  apply List.countP_mono_left
  intro w _ hjob
  cases w with
  | running job => rfl
  | _ => cases hjob

theorem Reachable.live_le (h : Reachable size p) : p.live ≤ size := by
  rw [← h.length_workers]
  exact List.countP_le_length

/-! ## The order -/

/-- What a step does to the two ends of the queue: a post appends a job, and a worker that looks
takes the first one and runs it. -/
inductive Passes (p p' : Pool) : Action → Prop where
  | post {batch : Batch} {options : Options} {job : Job} (hbatch : job.batch = batch)
      (hoptions : job.options = options) (hposted : p'.posted = p.posted ++ [job])
      (hqueue : p'.queue = p.queue ++ [job]) (hcalled : p'.called = p.called) :
      Passes p p' (.post batch options)
  | take {i : Nat} {job : Job} (hposted : p'.posted = p.posted) (hqueue : p.queue = job :: p'.queue)
      (hcalled : p'.called = p.called ++ [job]) (hworker : p'.workers[i]? = some (.running job)) :
      Passes p p' (.look i)
  | stay {a : Action} (hpost : ∀ batch options, a ≠ .post batch options)
      (hposted : p'.posted = p.posted) (hqueue : p'.queue = p.queue)
      (hcalled : p'.called = p.called) : Passes p p' a

theorem Step.passes (hstep : Step p a p') : Passes p p' a := by
  cases hstep with
  | post batch options _ => exact .post rfl rfl rfl rfl rfl
  | take hworker _ hqueue =>
    have hi := (List.getElem?_eq_some_iff.mp hworker).1
    exact .take rfl hqueue rfl (List.getElem?_set_self hi)
  | notifyNobody | wake | sleep | leave | answer | die | forget | close | wakeAll | join =>
    exact .stay nofun rfl rfl rfl

/-! ## Sleeping and leaving -/

theorem Attended.calm (h : p.Attended) (hcalm : p.Calm) (hasleep : .asleep ∈ p.workers) :
    p.queue = [] ∧ p.phase = .serving := by
  have hlength := h.queue_le hasleep
  rw [hcalm.unnotified, List.count_eq_zero_of_not_mem hcalm.woken] at hlength
  exact ⟨List.length_eq_zero_iff.mp (Nat.le_zero.mp hlength),
    (h.phase hasleep).resolve_right hcalm.phase⟩

theorem Step.leaves (hstep : Step p a p') {i : Nat} (hbefore : p.workers[i]? ≠ some .exited)
    (hafter : p'.workers[i]? = some .exited) : p.queue = [] ∧ p.phase ≠ .serving := by
  have hset : ∀ {k : Nat} {v : Worker}, v ≠ .exited → (p.workers.set k v)[i]? ≠ some .exited := by
    intro k v hv hexited
    rw [List.getElem?_set] at hexited
    split at hexited
    · split at hexited
      · exact hv (Option.some.inj hexited)
      · cases hexited
    · exact hbefore hexited
  cases hstep with
  | leave hworker hlooks hqueue hphase => exact ⟨hqueue, hphase⟩
  | wake | take | sleep | answer | die => exact absurd hafter (hset (by simp))
  | wakeAll hphase =>
    rw [List.getElem?_map] at hafter
    obtain ⟨w, hw, hwake⟩ := Option.map_eq_some_iff.mp hafter
    cases w <;> cases hwake
    exact absurd hw hbefore
  | post | notifyNobody | forget | close | join => exact absurd hafter hbefore

/-! ## The schedule -/

/-- How a pool of some size schedules its jobs. -/
structure Scheduled (size : Nat) (p : Pool) : Prop where
  /-- The jobs taken are, in that order, the first ones that were posted, and the queue is the
  rest. -/
  posted_eq : p.posted = p.called ++ p.queue
  /-- The two orders are those in which the jobs were posted and taken. -/
  passes : ∀ a p', p.step? a = some p' → Passes p p' a
  running_nodup : p.running.Nodup
  running_le : p.running.length ≤ p.live
  live_le : p.live ≤ size
  /-- While somebody sleeps, the jobs in the queue are no more than the posts that have not
  notified and the workers that were notified and have not looked. -/
  queue_le : .asleep ∈ p.workers → p.queue.length ≤ p.unnotified + p.workers.count .woken
  /-- While somebody sleeps in a closed pool, the sleepers have still to be woken. -/
  closed : .asleep ∈ p.workers → p.phase ≠ .serving → p.phase = .closed
  calm : p.Calm → .asleep ∈ p.workers → p.queue = [] ∧ p.phase = .serving
  leaves : ∀ (a : Action) (p' : Pool) (i : Nat), p.step? a = some p' →
    p.workers[i]? ≠ some .exited → p'.workers[i]? = some .exited →
      p.queue = [] ∧ p.phase ≠ .serving
  exited : .exited ∈ p.workers → p.queue = [] ∧ p.phase ≠ .serving

theorem Reachable.scheduled (h : Reachable size p) : Scheduled size p where
  posted_eq := h.tallied.posted_eq
  passes _ _ hstep := (step_of_step? hstep).passes
  running_nodup := h.tallied.nodup_running
  running_le := length_running_le_live p
  live_le := h.live_le
  queue_le := h.attended.queue_le
  closed hasleep hclosed := (h.attended.phase hasleep).resolve_left hclosed
  calm := h.attended.calm
  leaves _ _ _ hstep := (step_of_step? hstep).leaves
  exited hmem := ⟨(h.orderly.exited hmem).2, (h.orderly.exited hmem).1⟩

/-- One of three workers runs a job and the other two sleep when two jobs are posted.  One
sleeper is notified; before it looks, the busy worker comes back and takes a job. -/
def stealingRun : List Action :=
  [.look 1, .look 2, .post [["a"]] default, .look 0, .post [["b"]] default, .notify (some 1),
    .post [["c"]] default, .finish 0 (.failed (.stated "no")), .look 0]

theorem scheduled_stealingRun : ∃ p, (Pool.start 3).run? stealingRun = some p ∧ Reachable 3 p ∧
    p.workers.count .asleep = 1 ∧ p.queue.length = 1 ∧ p.running.length = 1 ∧ Scheduled 3 p := by
  obtain ⟨p, hrun⟩ : ∃ p, (Pool.start 3).run? stealingRun = some p := ⟨_, rfl⟩
  have hp : Reachable 3 p := Reachable.start.run hrun
  refine ⟨p, hrun, hp, ?_, ?_, ?_, hp.scheduled⟩
  all_goals
    cases hrun
    rfl

end DecodingDesk.Pool
