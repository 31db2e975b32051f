import DecodingDesk.Model.Echo
import DecodingDesk.Proofs.Gate.Waiting
import DecodingDesk.Proofs.Pool.Closing
import DecodingDesk.Proofs.Service.Visits
import Mathlib.Logic.Relation
/-!
# Shutdown is a barrier

The owner who shuts a service down waits until he has read a counter that is zero.
Nobody enters the gate meanwhile, so every task is over by then and has given up the
pool.  The owner is the last to hold it: he closes it, and returns when its workers
are gone.
-/

namespace DecodingDesk.Service

variable {size : Nat} {s s' : Service} {a : Action}

/-- Whether a shutdown has found the gate empty. -/
def Handle.isPastGate : Handle → Bool
  | releasing .shutdown | closing .shutdown | ended .shutdown => true
  | _ => false

/-- How far a shutdown is. -/
structure Drained (s : Service) : Prop where
  done : ∀ w, s.handle = .draining w → s.gate.waiters[w]? = some .done → s.gate.inFlight = 0
  empty : s.handle.isPastGate = true → s.gate.inFlight = 0
  closing : s.handle = .closing .shutdown → s.pool.phase = .closed ∨ s.pool.phase = .notified
  ended : s.handle = .ended .shutdown → s.pool.phase = .joined

/-! ## The gate while nobody enters it -/

/-- Once the owner has begun to end the service, nobody enters the gate. -/
theorem Step.inFlight_le (hstep : Step s a s') (h : Held size s) (hhandle : s.handle ≠ .serving) :
    s'.gate.inFlight ≤ s.gate.inFlight := by
  cases hstep with
  | begin hcall | enter hcall | collect hcall | forget hcall =>
    exact absurd (h.handle_eq hcall rfl) hhandle
  | taskLeave htask hgate =>
    rw [Gate.inFlight_decrement? hgate]
    exact Nat.le_succ _
  | notifyGate hgate => exact Nat.le_of_eq (Gate.inFlight_notify? hgate)
  | waiter _ hgate =>
    obtain ⟨w, w', -, -, rfl⟩ := Gate.stepWaiter?_eq_some hgate
    exact Nat.le_refl _
  | _ => exact Nat.le_refl _

/-- A waiter that is done was done before, or has just read a counter that is zero. -/
theorem Step.waiter_done (hstep : Step s a s') (h : Held size s) (hhandle : s.handle ≠ .serving)
    {w : Nat} (hdone : s'.gate.waiters[w]? = some .done) :
    s.gate.waiters[w]? = some .done ∨ s.gate.inFlight = 0 := by
  have hread : ∀ act, s.gate.step? act = some s'.gate →
      s.gate.waiters[w]? = some .done ∨ s.gate.inFlight = 0 := by
    intro act hgate
    by_cases hbefore : s.gate.waiters[w]? = some .done
    · exact .inl hbefore
    · exact .inr (Gate.read_of_step? hgate hbefore hdone).2.1
  cases hstep with
  | begin hcall | enter hcall | collect hcall | forget hcall =>
    exact absurd (h.handle_eq hcall rfl) hhandle
  | taskLeave htask hgate => exact hread .decrement hgate
  | notifyGate hgate => exact hread .notify hgate
  | @waiter v _ _ hgate => exact hread (.stepWaiter v) hgate
  | beginShutdown hserving | beginDrop hserving => exact absurd hserving hhandle
  | _ => exact .inl hdone

/-! ## What still happens when the gate is empty -/

/-- What an event that is not the owner's leaves as it is, and what it does to the pool. -/
structure Quiet (s : Service) (a : Action) (s' : Service) : Prop where
  tasks : s'.tasks = s.tasks
  calls : s'.calls = s.calls
  files : s'.files = s.files
  handle : s'.handle = s.handle
  pool : s'.pool = s.pool ∨ ∃ act, a.pool? = some act ∧ Pool.Step s.pool act s'.pool

/-- When nobody is inside the gate and nobody enters it, only the workers and the owner of
the service still do something. -/
theorem Step.quiet (hstep : Step s a s') (h : Held size s) (hcount : Counted s)
    (hhandle : s.handle ≠ .serving) (hzero : s.gate.inFlight = 0) :
    a = .teardown ∨ Quiet s a s' := by
  have hover : ∀ {j : Nat} {t : TaskStage}, s.tasks[j]? = some t → ∃ r, t = .ended r :=
    fun htask => hcount.ended_of_mem hzero (List.mem_of_getElem? htask)
  cases hstep with
  | call _ hserving | beginShutdown hserving | beginDrop hserving => exact absurd hserving hhandle
  | refuse hcall | post hcall | begin hcall | enter hcall | collect hcall | join hcall
  | forget hcall => exact absurd (h.handle_eq hcall rfl) hhandle
  | giveUp hcall hstage =>
    exact absurd (h.handle_eq hcall (by rcases hstage with rfl | ⟨j, rfl⟩ <;> rfl)) hhandle
  | work htask | letGo htask | taskClose htask | taskWait htask | taskLeave htask =>
    obtain ⟨r, hr⟩ := hover htask
    cases hr
  | worker hact hpool => exact .inr ⟨rfl, rfl, rfl, rfl, .inr ⟨_, hact, hpool⟩⟩
  | notifyGate hgate => exact .inr ⟨rfl, rfl, rfl, rfl, .inl rfl⟩
  | drained | waiter | handleClose | handleLeave | handleWait => exact .inl rfl

theorem Quiet.phase_eq (h : Quiet s a s') : s'.pool.phase = s.pool.phase := by
  rcases h.pool with hsame | ⟨act, hact, hpool⟩
  · rw [hsame]
  · apply hpool.phase_eq
    all_goals
      rintro rfl
      cases a <;> cases hact

/-! ## The stages of a shutdown -/

theorem Step.handle_of_draining (hstep : Step s a s') {w : Nat} (hw : s'.handle = .draining w) :
    s.handle = .draining w ∨ s.handle = .serving ∧ s'.gate.waiters[w]? = some .idle := by
  cases hstep with
  | beginShutdown hserving =>
    cases hw
    exact .inr ⟨hserving, List.getElem?_concat_length⟩
  | beginDrop | drained | handleClose | handleLeave => cases hw
  | handleWait =>
    simp only at hw
    split at hw <;> cases hw
  | _ => exact .inl hw

theorem Step.handle_of_isPastGate (hstep : Step s a s') (hpast : s'.handle.isPastGate = true) :
    s.handle.isPastGate = true ∨
      ∃ w, s.handle = .draining w ∧ s.gate.waiters[w]? = some .done := by
  cases hstep with
  | beginShutdown | beginDrop => cases hpast
  | drained hhandle hdone => exact .inr ⟨_, hhandle, hdone⟩
  | @handleClose how _ hhandle | @handleLeave how hhandle =>
    left
    rw [hhandle]
    cases how with
    | shutdown => rfl
    | drop => cases hpast
  | @handleWait how _ pool hhandle =>
    left
    rw [hhandle]
    cases how with
    | shutdown => rfl
    | drop =>
      simp only at hpast
      split at hpast <;> cases hpast
  | _ => exact .inl hpast

theorem Drained.inFlight_step (h : Drained s) (hheld : Held size s) (hstep : Step s a s') :
    (∀ w, s'.handle = .draining w → s'.gate.waiters[w]? = some .done → s'.gate.inFlight = 0) ∧
      (s'.handle.isPastGate = true → s'.gate.inFlight = 0) := by
  have hkeep : s.handle ≠ .serving → s.gate.inFlight = 0 → s'.gate.inFlight = 0 :=
    fun hhandle hzero => Nat.le_zero.mp (hzero ▸ hstep.inFlight_le hheld hhandle)
  constructor
  · intro w hw hdone
    rcases hstep.handle_of_draining hw with hdraining | ⟨-, hidle⟩
    · have hhandle : s.handle ≠ .serving := by
        rw [hdraining]
        simp
      rcases hstep.waiter_done hheld hhandle hdone with hbefore | hzero
      · exact hkeep hhandle (h.done w hdraining hbefore)
      · exact hkeep hhandle hzero
    · rw [hidle] at hdone
      cases hdone
  · intro hpast
    rcases hstep.handle_of_isPastGate hpast with hpast | ⟨w, hdraining, hdone⟩
    · refine hkeep ?_ (h.empty hpast)
      intro hserving
      rw [hserving] at hpast
      cases hpast
    · exact hkeep (by rw [hdraining]; simp) (h.done w hdraining hdone)

/-- When the gate is empty, nobody but the owner of the service holds the pool. -/
theorem Counted.owners_eq_one (h : Counted s) (hzero : s.gate.inFlight = 0)
    (hholds : s.handle.holdsPool = true) : s.owners = 1 := by
  have hle := h.holders_le
  rw [owners, if_pos hholds]
  omega

theorem Drained.phase_step (h : Drained s) (hheld : Held size s) (hcount : Counted s)
    (hstep : Step s a s') :
    (s'.handle = .closing .shutdown → s'.pool.phase = .closed ∨ s'.pool.phase = .notified) ∧
      (s'.handle = .ended .shutdown → s'.pool.phase = .joined) := by
  by_cases hteardown : a = .teardown
  · subst hteardown
    cases hstep with
    | worker hact => cases hact
    | drained => exact ⟨nofun, nofun⟩
    | waiter hdraining hgate =>
      refine ⟨fun hc => ?_, fun he => ?_⟩
      · rw [show s.handle = _ from hc] at hdraining
        cases hdraining
      · rw [show s.handle = _ from he] at hdraining
        cases hdraining
    | handleClose hhandle howners hpool =>
      refine ⟨fun _ => ?_, nofun⟩
      cases hpool with
      | close => exact .inl rfl
    | handleLeave hhandle howners =>
      -- another owner would be a task, and a task that holds the pool is inside the gate
      refine ⟨nofun, fun he => ?_⟩
      cases he
      have hzero := h.empty (by rw [hhandle]; rfl)
      exact absurd (hcount.owners_eq_one hzero (by rw [hhandle]; rfl)) howners
    | handleWait hhandle hact hpool =>
      rcases hact with rfl | rfl
      · cases hpool with
        | wakeAll => exact ⟨fun _ => .inr rfl, nofun⟩
      · cases hpool with
        | join => exact ⟨nofun, fun _ => rfl⟩
  · have hquiet : s'.handle.isPastGate = true → Quiet s a s' := by
      intro hpast
      rcases hstep.handle_of_isPastGate hpast with hpast | ⟨w, hdraining, hdone⟩
      · have hhandle : s.handle ≠ .serving := by
          intro hserving
          rw [hserving] at hpast
          cases hpast
        exact (hstep.quiet hheld hcount hhandle (h.empty hpast)).resolve_left hteardown
      · exact (hstep.quiet hheld hcount (by rw [hdraining]; simp)
          (h.done w hdraining hdone)).resolve_left hteardown
    constructor
    · intro hclosing
      have hq := hquiet (by rw [hclosing]; rfl)
      rw [hq.phase_eq]
      exact h.closing (hq.handle ▸ hclosing)
    · intro hended
      have hq := hquiet (by rw [hended]; rfl)
      rw [hq.phase_eq]
      exact h.ended (hq.handle ▸ hended)

theorem Drained.step (h : Drained s) (hheld : Held size s) (hcount : Counted s)
    (hstep : Step s a s') : Drained s' where
  done := (h.inFlight_step hheld hstep).1
  empty := (h.inFlight_step hheld hstep).2
  closing := (h.phase_step hheld hcount hstep).1
  ended := (h.phase_step hheld hcount hstep).2

structure Guarded (size : Nat) (s : Service) : Prop where
  held : Held size s
  counted : Counted s
  drained : Drained s

theorem Guarded.step (h : Guarded size s) (hstep : Step s a s') : Guarded size s' where
  held := h.held.step hstep
  counted := h.counted.step hstep
  drained := h.drained.step h.held h.counted hstep

variable {loader : Model.Loader} {files : Files} {settings : Settings}
  {Allows : Service → Action → Prop}

theorem Reachable.guarded (h : Reachable loader files settings Allows s) :
    Guarded settings.poolSize.toNat s := by
  refine ⟨h.held, h.counted, ?_⟩
  induction h with
  | start hcreate =>
    obtain ⟨-, -, -, -, hhandle, -⟩ := create_spec hcreate
    refine ⟨fun w hw => ?_, fun hpast => ?_, fun hc => ?_, fun he => ?_⟩
    · rw [hhandle] at hw
      cases hw
    · rw [hhandle] at hpast
      cases hpast
    · rw [hhandle] at hc
      cases hc
    · rw [hhandle] at he
      cases he
  | step a hreach _ hstep ih => exact ih.step hreach.held hreach.counted (step_of_step? hstep)

/-! ## After a shutdown -/

/-- What holds when a shutdown has returned: nobody is inside the gate, every task is over, no
worker is left, no job waits or is being run, and every caller has got something.  Only if
all workers have died were jobs left to them; if none has, every job was run and answered. -/
structure Quiescent (s : Service) : Prop where
  inFlight : s.gate.inFlight = 0
  tasks : ∀ t ∈ s.tasks, ∃ r, t = .ended r
  workers : ∀ w ∈ s.pool.workers, w = .exited ∨ ∃ job, w = .died job
  waiting : s.pool.waiting = []
  queue : s.pool.queue = [] ∨ ∀ w ∈ s.pool.workers, ∃ job, w = .died job
  settled : ∀ job ∈ s.pool.posted, s.pool.future? job.id ≠ none
  allRun : (∀ job, .died job ∉ s.pool.workers) →
    s.pool.called = s.pool.posted ∧ ∀ job ∈ s.pool.posted, job ∈ s.pool.answered

theorem Guarded.quiescent (h : Guarded size s) (hsize : 0 < size)
    (hended : s.handle = .ended .shutdown) : Quiescent s := by
  have hzero : s.gate.inFlight = 0 := h.drained.empty (by rw [hended]; rfl)
  have hrested := h.held.pool.rested hsize (h.drained.ended hended)
  exact ⟨hzero, fun t ht => h.counted.ended_of_mem hzero ht, hrested.workers, hrested.waiting,
    hrested.queue, hrested.settled, hrested.allRun⟩

/-- What does not change any more after a shutdown. -/
structure Final (s s' : Service) : Prop where
  files : s'.files = s.files
  tasks : s'.tasks = s.tasks
  calls : s'.calls = s.calls
  handle : s'.handle = s.handle
  pool : Pool.Settled s.pool s'.pool

theorem Guarded.final_step (h : Guarded size s) (hended : s.handle = .ended .shutdown)
    (hstep : Step s a s') : Final s s' := by
  have hzero : s.gate.inFlight = 0 := h.drained.empty (by rw [hended]; rfl)
  have hquiet : Quiet s a s' := by
    refine (hstep.quiet h.held h.counted (by rw [hended]; simp) hzero).resolve_left ?_
    rintro rfl
    cases hstep with
    | worker hact => cases hact
    | drained hhandle | waiter hhandle | handleClose hhandle | handleLeave hhandle
    | handleWait hhandle =>
      rw [hended] at hhandle
      cases hhandle
  refine ⟨hquiet.files, hquiet.tasks, hquiet.calls, hquiet.handle, ?_⟩
  rcases hquiet.pool with hsame | ⟨act, -, hpool⟩
  · rw [hsame]
    exact .refl _
  · exact h.held.pool.orderly.settled (h.drained.ended hended) hpool

def Later : Service → Service → Prop :=
  Relation.ReflTransGen fun s s' => ∃ a, s.step? a = some s'

theorem Guarded.final (h : Guarded size s) (hended : s.handle = .ended .shutdown)
    (hlater : Later s s') : Guarded size s' ∧ Final s s' := by
  induction hlater with
  | refl => exact ⟨h, rfl, rfl, rfl, rfl, .refl _⟩
  | tail _ hstep ih =>
    obtain ⟨a, hstep⟩ := hstep
    obtain ⟨hguarded, hfinal⟩ := ih
    have hstep := step_of_step? hstep
    have hnext := hguarded.final_step (hfinal.handle.trans hended) hstep
    exact ⟨hguarded.step hstep, hnext.files.trans hfinal.files, hnext.tasks.trans hfinal.tasks,
      hnext.calls.trans hfinal.calls, hnext.handle.trans hfinal.handle,
      hfinal.pool.trans hnext.pool⟩

/-- A shutdown that has returned is a barrier: all is quiet, and stays as it is whatever still
happens.  Before that, every task that holds the pool is inside the gate, and when the owner
of the service gives up the pool nobody else holds it. -/
theorem Reachable.shutdown_barrier (h : Reachable loader files settings Allows s) :
    s.tasks.countP TaskStage.holdsPool ≤ s.gate.inFlight ∧
      (s.handle = .releasing .shutdown → s.owners = 1) ∧
      (s.handle = .ended .shutdown → Quiescent s ∧
        ∀ s', Later s s' → Quiescent s' ∧ Final s s') := by
  have hguarded := h.guarded
  refine ⟨hguarded.counted.holders_le, ?_, ?_⟩
  · intro hreleasing
    have hzero := hguarded.drained.empty (by rw [hreleasing]; rfl)
    exact hguarded.counted.owners_eq_one hzero (by rw [hreleasing]; rfl)
  · intro hended
    have hsize := h.poolSize_pos
    refine ⟨hguarded.quiescent hsize hended, fun s' hlater => ?_⟩
    obtain ⟨hguarded', hfinal⟩ := hguarded.final hended hlater
    exact ⟨hguarded'.quiescent hsize (hfinal.handle.trans hended), hfinal⟩

def oneLine : Files :=
  Files.empty.set ["work", "in"] (.file (Text.encode "c\n"))

/-- A service with one worker that works on files. -/
def deskSettings : Settings where
  modelPath := "m"
  device := "cpu"
  deviceIndex := 0
  poolSize := 1

def deskService : Service where
  model := Model.Echo.model {}
  device := .cpu
  deviceIndex := 0
  pool := Pool.start 1
  files := oneLine

/-- A call for a document and one for a batch are given up, and the service is shut down while
the task and the job go on. -/
def abandonedThenShutDown : List Action :=
  [.call (.document "in" "out" 1 {}), .call (.batch (some [["a"]]) {}), .poll 0, .poll 1,
    .abandon 0, .poll 1, .abandon 1, .beginEnd .shutdown, .teardown, .teardown,
    .notifyWorker none, .look 0, .finish 0 (Model.Echo.model {} [["a"]] .default),
    .work 0, .work 0, .work 0, .work 0, .work 0, .notifyWorker none, .look 0,
    .finish 0 (Model.Echo.model {} [["c"]] .default), .work 0, .work 0, .work 0, .work 0,
    .notifyGate, .teardown, .teardown, .teardown, .teardown, .teardown, .look 0, .teardown,
    .teardown]

theorem shutdown_barrier_abandoned : ∃ s,
    Reachable (fun _ => .ok (Model.Echo.model {})) oneLine deskSettings Follows s ∧
      s.handle = .ended .shutdown ∧ Quiescent s ∧
      s.files.regular? "out" = some (Text.encode "c\n") := by
  have hstart : Reachable (fun _ => .ok (Model.Echo.model {})) oneLine deskSettings Follows
      deskService := .start rfl
  obtain ⟨s, hleads, hended, hout⟩ : ∃ s, Leads Follows deskService abandonedThenShutDown s ∧
      s.handle = .ended .shutdown ∧ s.files.regular? "out" = some (Text.encode "c\n") := by
    apply Exists.intro
    constructor
    · iterate 12 refine ⟨trivial, _, rfl, ?_⟩
      refine ⟨by rintro job ⟨⟩; rfl, _, rfl, ?_⟩
      iterate 7 refine ⟨trivial, _, rfl, ?_⟩
      refine ⟨by rintro job ⟨⟩; rfl, _, rfl, ?_⟩
      iterate 13 refine ⟨trivial, _, rfl, ?_⟩
      exact rfl
    · exact ⟨rfl, rfl⟩
  have hs := hstart.leads hleads
  exact ⟨s, hs, hended, (hs.shutdown_barrier.2.2 hended).1, hout⟩

end DecodingDesk.Service
