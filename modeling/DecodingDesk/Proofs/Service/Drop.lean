import DecodingDesk.Proofs.Pool.Stranded
import DecodingDesk.Proofs.Service.Shutdown
/-!
# What a drop waits for

An owner who drops the service without shutting it down gives up the pool at once.  If a
document task still holds it, the drop returns with the pool open, and whoever gives up the
pool last closes it.  Only a call for a document that was given up leaves such a task
behind; without one the drop is a barrier too.
-/

namespace DecodingDesk

/-- Whether somebody has closed the pool and waits for its workers. -/
def Pool.Phase.isClosing : Pool.Phase → Bool
  | closed | notified => true
  | serving | joined => false

namespace Service

variable {size : Nat} {s s' : Service} {a : Action}

def TaskStage.isClosing : TaskStage → Bool
  | closing _ => true
  | _ => false

/-- Whether a task holds the pool or waits for its workers. -/
def TaskStage.usesPool (t : TaskStage) : Bool :=
  t.holdsPool || t.isClosing

def Handle.isClosing : Handle → Bool
  | closing _ => true
  | _ => false

/-- How many have closed the pool and wait for its workers. -/
def closers (s : Service) : Nat :=
  s.tasks.countP TaskStage.isClosing + if s.handle.isClosing then 1 else 0

private theorem closers_setTask {j : Nat} {t : TaskStage} (h : s.tasks[j]? = some t)
    (stage : TaskStage) :
    (s.setTask j stage).closers + (if t.isClosing then 1 else 0) =
      s.closers + if stage.isClosing then 1 else 0 := by
  have hcount := countP_set_add h stage TaskStage.isClosing
  show (s.tasks.set j stage).countP TaskStage.isClosing + (if s.handle.isClosing then 1 else 0) +
    _ = s.tasks.countP TaskStage.isClosing + (if s.handle.isClosing then 1 else 0) + _
  omega

theorem closers_setTask_of_eq {j : Nat} {t stage : TaskStage} (h : s.tasks[j]? = some t)
    (hsame : stage.isClosing = t.isClosing) : (s.setTask j stage).closers = s.closers := by
  have hset := closers_setTask h stage
  rw [hsame] at hset
  omega

theorem closers_of_handle (htasks : s'.tasks = s.tasks)
    (hhandle : s'.handle.isClosing = s.handle.isClosing) : s'.closers = s.closers := by
  rw [closers, closers, htasks, hhandle]

/-! ## Who is in charge of the pool -/

/-- Somebody holds a pool that is open, and exactly one waits for the workers of a pool that is
being closed. -/
structure Custody (s : Service) : Prop where
  owned : s.pool.phase = .serving → 0 < s.owners
  awaited : s.closers = if s.pool.phase.isClosing then 1 else 0

theorem Custody.of_eq (h : Custody s) (hphase : s'.pool.phase = s.pool.phase)
    (howners : s'.owners = s.owners) (hclosers : s'.closers = s.closers) : Custody s' where
  owned hserving := by
    rw [howners]
    exact h.owned (hphase ▸ hserving)
  awaited := by rw [hclosers, h.awaited, hphase]

theorem custody_of_owned (hphase : s.pool.phase = .serving) (howners : 0 < s.owners)
    (hclosers : s.closers = 0) : Custody s := by
  refine ⟨fun _ => howners, ?_⟩
  rw [hclosers, hphase]
  rfl

theorem custody_of_closed (hphase : s.pool.phase ≠ .serving)
    (hclosers : s.closers = if s.pool.phase.isClosing then 1 else 0) : Custody s :=
  ⟨fun hserving => absurd hserving hphase, hclosers⟩

theorem Custody.closers_eq_zero (h : Custody s) (hphase : s.pool.phase = .serving) :
    s.closers = 0 := by
  rw [h.awaited, hphase]
  rfl

/-- A task that gives up a pool which others hold leaves it open. -/
theorem Custody.letGo (h : Custody s) (hheld : Held size s) {j : Nat} {r : Except Failure Nat}
    (htask : s.tasks[j]? = some (.releasing r)) (howners : s.owners ≠ 1) :
    Custody (s.setTask j (.leaving r)) := by
  have hserving := hheld.serving (owners_pos_of_task htask rfl)
  have hless : (s.setTask j (.leaving r)).owners + 1 = s.owners :=
    owners_setTask_of_release htask rfl rfl
  have hsame : (s.setTask j (.leaving r)).closers = s.closers := closers_setTask_of_eq htask rfl
  exact custody_of_owned hserving (by omega) (hsame.trans (h.closers_eq_zero hserving))

theorem Custody.taskClose (h : Custody s) {j : Nat} {r : Except Failure Nat} {pool : Pool}
    (htask : s.tasks[j]? = some (.releasing r)) (hpool : Pool.Step s.pool .close pool) :
    Custody ({ s with pool }.setTask j (.closing r)) := by
  have hone : (s.setTask j (.closing r)).closers + 0 = s.closers + 1 := closers_setTask htask _
  cases hpool with
  | close hphase =>
    refine custody_of_closed (by simp [setTask]) ?_
    rw [h.closers_eq_zero hphase] at hone
    exact hone

theorem Custody.taskWait (h : Custody s) {j : Nat} {r : Except Failure Nat} {act : Pool.Action}
    {pool : Pool} (htask : s.tasks[j]? = some (.closing r)) (hact : act = .wakeAll ∨ act = .join)
    (hpool : Pool.Step s.pool act pool) :
    Custody ({ s with pool }.setTask j
      (if pool.phase = Pool.Phase.joined then .leaving r else .closing r)) := by
  have hawaited := h.awaited
  rcases hact with rfl | rfl
  · cases hpool with
    | wakeAll hphase =>
      rw [hphase] at hawaited
      have hsame : (s.setTask j (.closing r)).closers = s.closers := closers_setTask_of_eq htask rfl
      exact custody_of_closed (by simp [setTask]) (hsame.trans hawaited)
  · cases hpool with
    | join hphase _ =>
      rw [hphase] at hawaited
      have hless : (s.setTask j (.leaving r)).closers + 1 = s.closers + 0 :=
        closers_setTask htask _
      refine custody_of_closed (by simp [setTask]) ?_
      rw [hawaited] at hless
      exact Nat.succ.inj hless

theorem Custody.handleWait (h : Custody s) {how : Teardown} {act : Pool.Action} {pool : Pool}
    (hhandle : s.handle = .closing how) (hact : act = .wakeAll ∨ act = .join)
    (hpool : Pool.Step s.pool act pool) :
    Custody { s with
      pool
      handle := if pool.phase = Pool.Phase.joined then .ended how else .closing how } := by
  have hawaited := h.awaited
  rw [closers, hhandle] at hawaited
  rcases hact with rfl | rfl
  · cases hpool with
    | wakeAll hphase =>
      rw [hphase] at hawaited
      exact custody_of_closed (by simp) hawaited
  · cases hpool with
    | join hphase _ =>
      rw [hphase] at hawaited
      exact custody_of_closed (by simp) (Nat.succ.inj hawaited)

theorem Custody.step (h : Custody s) (hheld : Held size s) (hstep : Step s a s') :
    Custody s' := by
  cases hstep with
  | call | refuse | post | enter | collect | join | giveUp | notifyGate | waiter =>
    exact h.of_eq rfl rfl rfl
  | begin hcall =>
    have hserving := hheld.phase_of_call hcall rfl
    have hhandle := hheld.handle_eq hcall rfl
    refine custody_of_owned hserving (owners_pos_of_handle ?_) ?_
    · show s.handle.holdsPool = true
      rw [hhandle]
      rfl
    · show (s.tasks ++ [TaskStage.working _]).countP TaskStage.isClosing + _ = 0
      rw [List.countP_append]
      exact h.closers_eq_zero hserving
  | forget _ hpool => exact h.of_eq (hpool.phase_eq (by simp) (by simp) (by simp)) rfl rfl
  | @work j task task' pool files htask hstep =>
    have hphase : pool.phase = s.pool.phase := by
      rcases Document.Task.pool_of_step? hstep with rfl | ⟨batch, options, rfl⟩ <;> rfl
    exact h.of_eq hphase (owners_setTask_of_eq htask (by unfold TaskStage.ofTask; split <;> rfl))
      (closers_setTask_of_eq htask (by unfold TaskStage.ofTask; split <;> rfl))
  | letGo htask howners => exact h.letGo hheld htask howners
  | taskClose htask _ hpool => exact h.taskClose htask hpool
  | taskWait htask hact hpool => exact h.taskWait htask hact hpool
  | taskLeave htask _ =>
    exact h.of_eq rfl (owners_setTask_of_eq htask rfl) (closers_setTask_of_eq htask rfl)
  | worker hact hpool =>
    refine h.of_eq (hpool.phase_eq ?_ ?_ ?_) rfl rfl
    all_goals
      rintro rfl
      cases a <;> cases hact
  | beginShutdown hhandle | beginDrop hhandle | drained hhandle =>
    exact h.of_eq rfl (owners_of_handle rfl (by rw [hhandle]; rfl))
      (closers_of_handle rfl (by rw [hhandle]; rfl))
  | @handleClose how pool hhandle howners hpool =>
    have hone : ({ s with pool, handle := .closing how } : Service).closers = s.closers + 1 := by
      simp [closers, hhandle, Handle.isClosing]
    cases hpool with
    | close hphase =>
      rw [h.closers_eq_zero hphase] at hone
      exact custody_of_closed (by simp) hone
  | @handleLeave how hhandle howners =>
    have hserving := hheld.serving (owners_pos_of_handle (by rw [hhandle]; rfl))
    have hless : ({ s with handle := .ended how } : Service).owners + 1 = s.owners :=
      owners_of_handle_release rfl (by rw [hhandle]; rfl) rfl
    have hsame : ({ s with handle := .ended how } : Service).closers = s.closers :=
      closers_of_handle rfl (by rw [hhandle]; rfl)
    have hpos := owners_pos_of_handle (s := s) (by rw [hhandle]; rfl)
    exact custody_of_owned hserving (by omega) (hsame.trans (h.closers_eq_zero hserving))
  | handleWait hhandle hact hpool => exact h.handleWait hhandle hact hpool

/-! ## Whose tasks are left -/

/-- Whether a task may be the one that a call has begun: a call for a document waits for its
task until it is given up. -/
def Call.MayHaveBegun (c : Call) (j : Nat) : Prop :=
  c.spec.isDocument = true ∧ (c.stage = .blocked j ∨ c.stage = .abandoned)

/-- Every task that is not over was begun by a call that has not returned. -/
def Commissioned (s : Service) : Prop :=
  ∀ j t, s.tasks[j]? = some t → t.isInside = true → ∃ c ∈ s.calls, c.MayHaveBegun j

theorem Commissioned.setCall (h : Commissioned s) {i : Nat} {c : Call}
    (hcall : s.calls[i]? = some c) {stage : CallStage}
    (hkeep : ∀ j t, s.tasks[j]? = some t → t.isInside = true → c.MayHaveBegun j →
      Call.MayHaveBegun { c with stage } j) :
    Commissioned (s.setCall i stage) := by
  intro j t htask hinside
  obtain ⟨other, hmem, hbegun⟩ := h j t htask hinside
  rw [calls_setCall hcall]
  obtain ⟨k, hk⟩ := List.mem_iff_getElem?.mp hmem
  by_cases hsame : i = k
  · subst hsame
    rw [hcall] at hk
    cases hk
    exact ⟨_, List.mem_set (List.getElem?_eq_some_iff.mp hcall).1 _, hkeep j t htask hinside hbegun⟩
  · refine ⟨other, List.mem_of_getElem? (i := k) ?_, hbegun⟩
    rw [List.getElem?_set_ne hsame, hk]

theorem Commissioned.setTask (h : Commissioned s) {j : Nat} {t : TaskStage}
    (htask : s.tasks[j]? = some t) (hinside : t.isInside = true) (stage : TaskStage) :
    Commissioned (s.setTask j stage) := by
  intro k t' htask' hinside'
  by_cases hsame : j = k
  · subst hsame
    exact h j t htask hinside
  · refine h k t' ?_ hinside'
    rwa [Service.setTask, List.getElem?_set_ne hsame] at htask'

theorem Commissioned.append_task (h : Commissioned s) {t : TaskStage}
    (hbegun : ∃ c ∈ s.calls, c.MayHaveBegun s.tasks.length) :
    Commissioned { s with tasks := s.tasks ++ [t] } := by
  intro j t' htask hinside
  rcases Nat.lt_trichotomy j s.tasks.length with hlt | rfl | hgt
  · refine h j t' ?_ hinside
    rwa [List.getElem?_append_left hlt] at htask
  · exact hbegun
  · rw [List.getElem?_eq_none (by rw [List.length_append]; exact hgt)] at htask
    cases htask

theorem Commissioned.step (h : Commissioned s) (hstep : Step s a s') : Commissioned s' := by
  cases hstep with
  | call spec _ =>
    intro j t htask hinside
    obtain ⟨c, hc, hbegun⟩ := h j t htask hinside
    exact ⟨c, List.mem_append_left _ hc, hbegun⟩
  | refuse hcall | post hcall | enter hcall | collect hcall | forget hcall =>
    refine Commissioned.setCall (s := { s with .. }) h hcall ?_
    rintro j t - - ⟨-, hstage | hstage⟩ <;> cases hstage
  | join hcall hended =>
    refine h.setCall hcall ?_
    rintro j t htask hinside ⟨-, hstage | hstage⟩
    · cases hstage
      rw [hended] at htask
      cases htask
      cases hinside
    · cases hstage
  | giveUp hcall =>
    refine h.setCall hcall ?_
    rintro j t - - ⟨hspec, -⟩
    exact ⟨hspec, .inr rfl⟩
  | @begin i input output batchSize params options hcall =>
    have hset : Commissioned (s.setCall i (.blocked s.tasks.length)) :=
      h.setCall hcall (by rintro j t - - ⟨-, hstage | hstage⟩ <;> cases hstage)
    refine hset.append_task ⟨{ spec := .document input output batchSize params
                               stage := .blocked s.tasks.length }, ?_, rfl, .inl rfl⟩
    rw [calls_setCall hcall]
    exact List.mem_set (List.getElem?_eq_some_iff.mp hcall).1 _
  | work htask | letGo htask | taskClose htask | taskWait htask | taskLeave htask =>
    exact Commissioned.setTask (s := { s with .. }) h htask rfl _
  | worker | notifyGate | beginShutdown | beginDrop | drained | waiter | handleClose
  | handleLeave | handleWait => exact h

/-! ## After a drop -/

variable {loader : Model.Loader} {files : Files} {settings : Settings}
  {Allows : Service → Action → Prop}

theorem Reachable.custody (h : Reachable loader files settings Allows s) : Custody s := by
  induction h with
  | start hcreate =>
    obtain ⟨hpool, -, -, htasks, hhandle, -⟩ := create_spec hcreate
    refine custody_of_owned (by rw [hpool]; rfl) (owners_pos_of_handle (by rw [hhandle]; rfl)) ?_
    rw [closers, htasks, hhandle]
    rfl
  | step a hreach _ hstep ih => exact ih.step hreach.held (step_of_step? hstep)

theorem Reachable.commissioned (h : Reachable loader files settings Allows s) :
    Commissioned s := by
  induction h with
  | start hcreate =>
    obtain ⟨-, -, -, htasks, -, -⟩ := create_spec hcreate
    intro j t htask
    rw [htasks] at htask
    cases htask
  | step a _ _ hstep ih => exact ih.step (step_of_step? hstep)

/-- When the owner of the service is out of it, the pool is with the tasks. -/
theorem Custody.phase_of_ended (h : Custody s) (hheld : Held size s) {how : Teardown}
    (hended : s.handle = .ended how) :
    (s.pool.phase = .serving ↔ ∃ t ∈ s.tasks, t.holdsPool = true) ∧
      (s.pool.phase = .joined ↔ ∀ t ∈ s.tasks, t.usesPool = false) := by
  have howners : s.owners = s.tasks.countP TaskStage.holdsPool := by
    rw [owners, hended]
    rfl
  have hclosers : s.closers = s.tasks.countP TaskStage.isClosing := by
    rw [closers, hended]
    rfl
  have hserving : s.pool.phase = .serving ↔ ∃ t ∈ s.tasks, t.holdsPool = true := by
    rw [← List.countP_pos_iff, ← howners]
    exact ⟨h.owned, hheld.serving⟩
  have hclosing : s.pool.phase.isClosing = true ↔ ∃ t ∈ s.tasks, t.isClosing = true := by
    rw [← List.countP_pos_iff, ← hclosers, h.awaited]
    split <;> simp [*]
  refine ⟨hserving, ?_⟩
  have hjoined : s.pool.phase = .joined ↔
      ¬ (s.pool.phase = .serving ∨ s.pool.phase.isClosing = true) := by
    cases s.pool.phase <;> simp [Pool.Phase.isClosing]
  rw [hjoined, hserving, hclosing, ← exists_or]
  simp [TaskStage.usesPool, not_or, ← and_or_left]

/-- A task that still uses the pool was begun by a call that was given up. -/
theorem Commissioned.joined (h : Commissioned s) (hcustody : Custody s) (hheld : Held size s)
    {how : Teardown} (hended : s.handle = .ended how)
    (hnone : ∀ c ∈ s.calls, c.spec.isDocument = true → c.stage ≠ .abandoned) :
    s.pool.phase = .joined := by
  refine (hcustody.phase_of_ended hheld hended).2.mpr fun t ht => ?_
  have hinside : ¬ t.isInside = true := by
    intro hinside
    obtain ⟨j, hj⟩ := List.mem_iff_getElem?.mp ht
    obtain ⟨c, hc, hdocument, hblocked | habandoned⟩ := h j t hj hinside
    · have hidle := hheld.idle (by simp [hended]) c hc
      rw [Call.isActive, hblocked] at hidle
      cases hidle
    · exact hnone c hc hdocument habandoned
  cases t with
  | ended => rfl
  | _ => exact absurd rfl hinside

/-- Nothing happens any more in the pool of a service whose workers are gone. -/
theorem Held.settled (h : Held size s) (hjoined : s.pool.phase = .joined) (hlater : Later s s') :
    Held size s' ∧ Pool.Settled s.pool s'.pool := by
  induction hlater with
  | refl => exact ⟨h, .refl _⟩
  | tail _ hstep ih =>
    obtain ⟨a, hstep⟩ := hstep
    obtain ⟨hheld, hsettled⟩ := ih
    have hstep := step_of_step? hstep
    refine ⟨hheld.step hstep, hsettled.trans ?_⟩
    rcases hheld.pool_step hstep with hsame | ⟨act, hpool, -⟩
    · rw [hsame]
      exact .refl _
    · exact hheld.pool.orderly.settled (hsettled.phase.trans hjoined) hpool

/-- When a drop has returned, the pool is still open exactly if a document task holds it, and
its workers are gone exactly if no task uses it.  That is so if no call for a document was
given up; and once it is so, all is quiet in the pool and stays so. -/
theorem Reachable.drop_returned (h : Reachable loader files settings Allows s)
    (hended : s.handle = .ended .drop) :
    (s.pool.phase = .serving ↔ ∃ t ∈ s.tasks, t.holdsPool = true) ∧
      (s.pool.phase = .joined ↔ ∀ t ∈ s.tasks, t.usesPool = false) ∧
      ((∀ c ∈ s.calls, c.spec.isDocument = true → c.stage ≠ .abandoned) →
        s.pool.phase = .joined) ∧
      (s.pool.phase = .joined → s.pool.Rested ∧
        ∀ s', Later s s' → s'.pool.Rested ∧ Pool.Settled s.pool s'.pool) := by
  obtain ⟨hserving, hjoined⟩ := h.custody.phase_of_ended h.held hended
  refine ⟨hserving, hjoined, h.commissioned.joined h.custody h.held hended, fun hphase => ?_⟩
  refine ⟨h.held.pool.rested h.poolSize_pos hphase, fun s' hlater => ?_⟩
  obtain ⟨hheld, hsettled⟩ := h.held.settled hphase hlater
  exact ⟨hheld.pool.rested h.poolSize_pos (hsettled.phase.trans hphase), hsettled⟩

/-- A call for a batch is given up, and the drop waits for its job. -/
def abandonedThenDropped : List Action :=
  [.call (.batch (some [["a"]]) {}), .poll 0, .poll 0, .abandon 0, .beginEnd .drop, .teardown,
    .notifyWorker none, .look 0, .finish 0 (Model.Echo.model {} [["a"]] .default), .teardown,
    .look 0, .teardown]

theorem drop_returned_abandoned : ∃ s,
    Reachable (fun _ => .ok (Model.Echo.model {})) oneLine deskSettings Follows s ∧
      s.handle = .ended .drop ∧ s.pool.Rested ∧ s.pool.answered.length = 1 := by
  have hstart : Reachable (fun _ => .ok (Model.Echo.model {})) oneLine deskSettings Follows
      deskService := .start rfl
  obtain ⟨s, hleads, hended, hcalls, hanswered⟩ :
      ∃ s, Leads Follows deskService abandonedThenDropped s ∧ s.handle = .ended .drop ∧
        s.calls.map Call.spec = [.batch (some [["a"]]) {}] ∧ s.pool.answered.length = 1 := by
    apply Exists.intro
    constructor
    · iterate 8 refine ⟨trivial, _, rfl, ?_⟩
      refine ⟨by rintro job ⟨⟩; rfl, _, rfl, ?_⟩
      iterate 3 refine ⟨trivial, _, rfl, ?_⟩
      exact rfl
    · exact ⟨rfl, rfl, rfl⟩
  have hs := hstart.leads hleads
  obtain ⟨-, -, hjoined, hrested⟩ := hs.drop_returned hended
  have hnone : ∀ c ∈ s.calls, c.spec.isDocument = true → c.stage ≠ .abandoned := by
    intro c hc hdocument
    have hspec := List.mem_map_of_mem (f := Call.spec) hc
    rw [hcalls, List.mem_singleton] at hspec
    rw [hspec] at hdocument
    cases hdocument
  exact ⟨s, hs, hended, (hrested (hjoined hnone)).1, hanswered⟩

def twoLines : Files :=
  Files.empty.set ["work", "in"] (.file (Text.encode "c\nd\n"))

/-- A call for a document is given up while its first line is being run, and the owner drops
the service. -/
def droppedUnderWay : List Action :=
  [.call (.document "in" "out" 1 {}), .poll 0, .work 0, .work 0, .work 0, .work 0,
    .notifyWorker none, .look 0, .abandon 0, .beginEnd .drop, .teardown]

theorem Leads.later {actions : List Action} (h : Leads Allows s actions s') : Later s s' := by
  induction actions generalizing s with
  | nil =>
    cases h
    exact .refl
  | cons a rest ih =>
    obtain ⟨-, next, hstep, hrest⟩ := h
    exact .head ⟨a, hstep⟩ (ih hrest)

/-- What happens to the second line after the drop has returned. -/
def goneOnAfterDrop : List Action :=
  [.work 0, .notifyWorker none, .finish 0 (Model.Echo.model {} [["c"]] .default), .look 0]

/-- A batch costs the only worker, and the next one is given up before the owner drops the
service. -/
def droppedAfterDeath : List Action :=
  [.call (.batch (some [["bomb"]]) {}), .poll 0, .poll 0, .notifyWorker none, .look 0,
    .finish 0 (Pool.bombScript.model [["bomb"]] .default), .poll 0,
    .call (.batch (some [["a"]]) {}), .poll 1, .poll 1, .abandon 1, .beginEnd .drop, .teardown,
    .teardown, .teardown]

/-- So a drop may return while a job is being run and more are to come, and leave jobs behind
that are never run. -/
theorem not_rested_of_dropped :
    (∃ s s' job, Reachable (fun _ => .ok (Model.Echo.model {})) twoLines deskSettings Follows s ∧
      s.handle = .ended .drop ∧ .running job ∈ s.pool.workers ∧ s.pool.called = [job] ∧
      Later s s' ∧ s'.pool.called.length = 2) ∧
    (∃ s, Reachable (fun _ => .ok Pool.bombScript.model) oneLine deskSettings Follows s ∧
      s.handle = .ended .drop ∧ s.pool.phase = .joined ∧
      s.pool.posted.map Job.batch = [[["bomb"]], [["a"]]] ∧
      s.pool.called.map Job.batch = [[["bomb"]]]) := by
  constructor
  · have hstart : Reachable (fun _ => .ok (Model.Echo.model {})) twoLines deskSettings Follows
        { deskService with files := twoLines } := .start rfl
    obtain ⟨s, hleads, hended, hworkers, hcalled, s', hlater, hlen⟩ :
        ∃ s, Leads Follows { deskService with files := twoLines } droppedUnderWay s ∧
          s.handle = .ended .drop ∧ s.pool.workers = [.running ⟨0, [["c"]], .default⟩] ∧
          s.pool.called = [⟨0, [["c"]], .default⟩] ∧
          ∃ s', Leads Follows s goneOnAfterDrop s' ∧ s'.pool.called.length = 2 := by
      apply Exists.intro
      constructor
      · iterate 11 refine ⟨trivial, _, rfl, ?_⟩
        exact rfl
      · refine ⟨rfl, rfl, rfl, ?_⟩
        apply Exists.intro
        constructor
        · iterate 2 refine ⟨trivial, _, rfl, ?_⟩
          refine ⟨by rintro job ⟨⟩; rfl, _, rfl, ?_⟩
          refine ⟨trivial, _, rfl, ?_⟩
          exact rfl
        · rfl
    exact ⟨s, s', _, hstart.leads hleads, hended, by rw [hworkers]; exact List.mem_singleton_self _,
      hcalled, hlater.later, hlen⟩
  · have hstart : Reachable (fun _ => .ok Pool.bombScript.model) oneLine deskSettings Follows
        { deskService with model := Pool.bombScript.model } := .start rfl
    obtain ⟨s, hleads, hs⟩ :
        ∃ s, Leads Follows { deskService with model := Pool.bombScript.model } droppedAfterDeath s ∧
          s.handle = .ended .drop ∧ s.pool.phase = .joined ∧
          s.pool.posted.map Job.batch = [[["bomb"]], [["a"]]] ∧
          s.pool.called.map Job.batch = [[["bomb"]]] := by
      apply Exists.intro
      constructor
      · iterate 5 refine ⟨trivial, _, rfl, ?_⟩
        refine ⟨by rintro job ⟨⟩; rfl, _, rfl, ?_⟩
        iterate 9 refine ⟨trivial, _, rfl, ?_⟩
        exact rfl
      · exact ⟨rfl, rfl, rfl, rfl⟩
    exact ⟨s, hstart.leads hleads, hs⟩

end Service

end DecodingDesk
