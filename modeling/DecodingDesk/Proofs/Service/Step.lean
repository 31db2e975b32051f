import DecodingDesk.Proofs.Pool.Step
import DecodingDesk.Service.Create
/-!
# What can happen in a service

`Service.step?` as a relation with one constructor for each kind of event: what calls
do, what document tasks do, what happens in the pool, and what the owner does to end
the service.
-/

namespace DecodingDesk.Service

open Model (Outcome)

variable {s s' : Service} {a : Action}

def CallSpec.isDocument : CallSpec → Bool
  | document .. => true
  | batch .. => false

/-- The reply to a call that needs neither the engine nor a task. -/
def CallSpec.immediate? : CallSpec → Option CallReply
  | .batch tokens params =>
    match Options.validate params with
    | .error e => some (.error (.error (.options e)))
    | .ok _ => if (Batch.ofOption tokens).isEmpty then some (.ok (.results {})) else none
  | .document _ _ batchSize params =>
    match Options.validate params with
    | .error e => some (.error (.error (.options e)))
    | .ok _ => if batchSize = 0 then some (.error (.error (.options .zeroBatchSize))) else none

/-- The stage of a task after a step of its work. -/
def TaskStage.ofTask (task : Document.Task) : TaskStage :=
  match task.result? with
  | some r => .releasing r
  | none => .working task

/-- What an action of a worker, or of a post that notifies one, does in the pool. -/
def Action.pool? : Action → Option Pool.Action
  | .notifyWorker sleeper => some (.notify sleeper)
  | .look i => some (.look i)
  | .finish i outcome => some (.finish i outcome)
  | _ => none

/-- One event in a service. -/
inductive Step (s : Service) : Action → Service → Prop where
  | call (spec : CallSpec) (hserving : s.handle = .serving) :
      Step s (.call spec) { s with calls := s.calls ++ [{ spec }] }
  | refuse {i : Nat} {spec : CallSpec} {r : CallReply}
      (hcall : s.calls[i]? = some { spec, stage := .created }) (hr : spec.immediate? = some r) :
      Step s (.poll i) (s.setCall i (.returned r))
  | post {i : Nat} {tokens : Option Batch} {params : DecodingParams} {options : Options}
      (hcall : s.calls[i]? = some { spec := .batch tokens params, stage := .created })
      (hvalid : Options.validate params = .ok options)
      (hne : Batch.ofOption tokens ≠ []) :
      Step s (.poll i)
        ({ s with pool := s.pool.post (Batch.ofOption tokens) options }.setCall i
          (.entering s.pool.posted.length))
  | begin {i : Nat} {input output : String} {batchSize : Nat} {params : DecodingParams}
      {options : Options}
      (hcall : s.calls[i]? =
        some { spec := .document input output batchSize params, stage := .created })
      (hvalid : Options.validate params = .ok options) (hne : batchSize ≠ 0) :
      Step s (.poll i)
        ({ s with
          gate := s.gate.enter
          tasks := s.tasks ++ [TaskStage.working { request :=
            { input, output, batchSize, options, withScores := params.withScores } }] }.setCall i
          (.blocked s.tasks.length))
  | enter {i job : Nat} {spec : CallSpec}
      (hcall : s.calls[i]? = some { spec, stage := .entering job }) :
      Step s (.poll i) ({ s with gate := s.gate.enter }.setCall i (.waiting job))
  | collect {i job : Nat} {spec : CallSpec} {reply : Pool.Reply}
      (hcall : s.calls[i]? = some { spec, stage := .waiting job })
      (hfuture : s.pool.future? job = some reply) :
      Step s (.poll i)
        ({ s with gate := s.gate.leave }.setCall i (.returned (batchReply reply)))
  | join {i j : Nat} {spec : CallSpec} {r : Except Failure Nat}
      (hcall : s.calls[i]? = some { spec, stage := .blocked j })
      (htask : s.tasks[j]? = some (.ended r)) :
      Step s (.poll i) (s.setCall i (.returned (taskReply r)))
  | giveUp {i : Nat} {spec : CallSpec} {stage : CallStage}
      (hcall : s.calls[i]? = some { spec, stage })
      (hstage : stage = .created ∨ ∃ j, stage = .blocked j) :
      Step s (.abandon i) (s.setCall i .abandoned)
  | forget {i job : Nat} {spec : CallSpec} {pool : Pool}
      (hcall : s.calls[i]? = some { spec, stage := .waiting job })
      (hpool : Pool.Step s.pool (.forget job) pool) :
      Step s (.abandon i) ({ s with pool, gate := s.gate.leave }.setCall i .abandoned)
  | work {j : Nat} {task task' : Document.Task} {pool : Pool} {files : Files}
      (htask : s.tasks[j]? = some (.working task))
      (hstep : task.step? s.pool s.files = some (task', pool, files)) :
      Step s (.work j) ({ s with pool, files }.setTask j (.ofTask task'))
  | letGo {j : Nat} {r : Except Failure Nat} (htask : s.tasks[j]? = some (.releasing r))
      (howners : s.owners ≠ 1) : Step s (.work j) (s.setTask j (.leaving r))
  | taskClose {j : Nat} {r : Except Failure Nat} {pool : Pool}
      (htask : s.tasks[j]? = some (.releasing r)) (howners : s.owners = 1)
      (hpool : Pool.Step s.pool .close pool) :
      Step s (.work j) ({ s with pool }.setTask j (.closing r))
  | taskWait {j : Nat} {r : Except Failure Nat} {act : Pool.Action} {pool : Pool}
      (htask : s.tasks[j]? = some (.closing r)) (hact : act = .wakeAll ∨ act = .join)
      (hpool : Pool.Step s.pool act pool) :
      Step s (.work j) ({ s with pool }.setTask j
        (if pool.phase = Pool.Phase.joined then .leaving r else .closing r))
  | taskLeave {j : Nat} {r : Except Failure Nat} {gate : Gate}
      (htask : s.tasks[j]? = some (.leaving r)) (hgate : s.gate.decrement? = some gate) :
      Step s (.work j) ({ s with gate }.setTask j (.ended r))
  | worker {a : Action} {act : Pool.Action} {pool : Pool} (hact : a.pool? = some act)
      (hpool : Pool.Step s.pool act pool) : Step s a { s with pool }
  | notifyGate {gate : Gate} (hgate : s.gate.notify? = some gate) :
      Step s .notifyGate { s with gate }
  | beginShutdown (hserving : s.handle = .serving) (hidle : ∀ c ∈ s.calls, c.isActive = false) :
      Step s (.beginEnd .shutdown)
        { s with gate := s.gate.addWaiter, handle := .draining s.gate.waiters.length }
  | beginDrop (hserving : s.handle = .serving) (hidle : ∀ c ∈ s.calls, c.isActive = false) :
      Step s (.beginEnd .drop) { s with handle := .releasing .drop }
  | drained {w : Nat} (hhandle : s.handle = .draining w)
      (hdone : s.gate.waiters[w]? = some .done) :
      Step s .teardown { s with handle := .releasing .shutdown }
  | waiter {w : Nat} {gate : Gate} (hhandle : s.handle = .draining w)
      (hgate : s.gate.stepWaiter? w = some gate) : Step s .teardown { s with gate }
  | handleClose {how : Teardown} {pool : Pool} (hhandle : s.handle = .releasing how)
      (howners : s.owners = 1) (hpool : Pool.Step s.pool .close pool) :
      Step s .teardown { s with pool, handle := .closing how }
  | handleLeave {how : Teardown} (hhandle : s.handle = .releasing how) (howners : s.owners ≠ 1) :
      Step s .teardown { s with handle := .ended how }
  | handleWait {how : Teardown} {act : Pool.Action} {pool : Pool}
      (hhandle : s.handle = .closing how) (hact : act = .wakeAll ∨ act = .join)
      (hpool : Pool.Step s.pool act pool) :
      Step s .teardown { s with
        pool
        handle := if pool.phase = Pool.Phase.joined then .ended how else .closing how }

private theorem step_of_closePool? {p pool : Pool} (h : closePool? p = some pool) :
    ∃ act, (act = .wakeAll ∨ act = .join) ∧ Pool.Step p act pool := by
  unfold closePool? at h
  cases hwake : p.step? .wakeAll with
  | some woken =>
    rw [hwake] at h
    cases h
    exact ⟨_, .inl rfl, Pool.step_of_step? hwake⟩
  | none =>
    rw [hwake] at h
    exact ⟨_, .inr rfl, Pool.step_of_step? h⟩

private theorem step_of_startBatch {i : Nat} {tokens : Option Batch} {params : DecodingParams}
    (hcall : s.calls[i]? = some { spec := .batch tokens params, stage := .created }) :
    Step s (.poll i) (s.startBatch i tokens params) := by
  unfold startBatch
  split
  · rename_i e hvalid
    exact .refuse hcall (by rw [CallSpec.immediate?, hvalid])
  · rename_i options hvalid
    simp only
    split
    · rename_i hempty
      exact .refuse hcall (by rw [CallSpec.immediate?, hvalid]; exact if_pos hempty)
    · rename_i hsome
      exact .post hcall hvalid (by simpa using hsome)

private theorem step_of_startDocument {i batchSize : Nat} {input output : String}
    {params : DecodingParams}
    (hcall : s.calls[i]? =
      some { spec := .document input output batchSize params, stage := .created }) :
    Step s (.poll i) (s.startDocument i input output batchSize params) := by
  unfold startDocument
  split
  · rename_i e hvalid
    exact .refuse hcall (by rw [CallSpec.immediate?, hvalid])
  · rename_i options hvalid
    split
    · rename_i hzero
      exact .refuse hcall (by rw [CallSpec.immediate?, hvalid]; exact if_pos hzero)
    · exact .begin hcall hvalid ‹_›

private theorem step_of_poll? {i : Nat} (h : s.poll? i = some s') : Step s (.poll i) s' := by
  unfold poll? at h
  obtain ⟨⟨spec, stage⟩, hcall, h⟩ := Option.bind_eq_some_iff.mp h
  cases stage with
  | created =>
    cases spec with
    | batch tokens params =>
      cases h
      exact step_of_startBatch hcall
    | document input output batchSize params =>
      cases h
      exact step_of_startDocument hcall
  | entering job =>
    cases h
    exact .enter hcall
  | waiting job =>
    obtain ⟨reply, hfuture, h⟩ := Option.bind_eq_some_iff.mp h
    cases h
    exact .collect hcall hfuture
  | blocked j =>
    simp only at h
    split at h
    · rename_i r htask
      cases h
      exact .join hcall htask
    · cases h
  | returned r => cases h
  | abandoned => cases h

private theorem step_of_abandon? {i : Nat} (h : s.abandon? i = some s') :
    Step s (.abandon i) s' := by
  unfold abandon? at h
  obtain ⟨⟨spec, stage⟩, hcall, h⟩ := Option.bind_eq_some_iff.mp h
  cases stage with
  | created =>
    cases h
    exact .giveUp hcall (.inl rfl)
  | blocked j =>
    cases h
    exact .giveUp hcall (.inr ⟨j, rfl⟩)
  | waiting job =>
    obtain ⟨pool, hpool, h⟩ := Option.bind_eq_some_iff.mp h
    cases h
    exact .forget hcall (Pool.step_of_step? hpool)
  | entering job | returned r | abandoned => cases h

private theorem step_of_work? {j : Nat} (h : s.work? j = some s') : Step s (.work j) s' := by
  unfold work? at h
  obtain ⟨stage, htask, h⟩ := Option.bind_eq_some_iff.mp h
  cases stage with
  | working task =>
    obtain ⟨⟨task', pool, files⟩, hstep, h⟩ := Option.bind_eq_some_iff.mp h
    cases h
    exact .work htask hstep
  | releasing r =>
    simp only at h
    split at h
    · rename_i howners
      obtain ⟨pool, hpool, h⟩ := Option.bind_eq_some_iff.mp h
      cases h
      exact .taskClose htask howners (Pool.step_of_step? hpool)
    · rename_i howners
      cases h
      exact .letGo htask howners
  | closing r =>
    obtain ⟨pool, hpool, h⟩ := Option.bind_eq_some_iff.mp h
    obtain ⟨act, hact, hstep⟩ := step_of_closePool? hpool
    cases h
    exact .taskWait htask hact hstep
  | leaving r =>
    obtain ⟨gate, hgate, h⟩ := Option.bind_eq_some_iff.mp h
    cases h
    exact .taskLeave htask hgate
  | ended r => cases h

private theorem step_of_teardown? (h : s.teardown? = some s') : Step s .teardown s' := by
  unfold teardown? at h
  split at h
  · rename_i w hhandle
    split at h
    · cases h
      exact .drained hhandle ‹_›
    · obtain ⟨gate, hgate, rfl⟩ := Option.map_eq_some_iff.mp h
      exact .waiter hhandle hgate
  · rename_i how hhandle
    split at h
    · obtain ⟨pool, hpool, rfl⟩ := Option.map_eq_some_iff.mp h
      exact .handleClose hhandle ‹_› (Pool.step_of_step? hpool)
    · cases h
      exact .handleLeave hhandle ‹_›
  · rename_i how hhandle
    obtain ⟨pool, hpool, rfl⟩ := Option.map_eq_some_iff.mp h
    obtain ⟨act, hact, hstep⟩ := step_of_closePool? hpool
    exact .handleWait hhandle hact hstep
  · cases h

theorem step_of_step? (h : s.step? a = some s') : Step s a s' := by
  cases a with
  | call spec =>
    simp only [step?] at h
    split at h
    · cases h
      exact .call spec ‹_›
    · cases h
  | poll i => exact step_of_poll? h
  | abandon i => exact step_of_abandon? h
  | work j => exact step_of_work? h
  | notifyWorker sleeper | look i | finish i outcome =>
    obtain ⟨pool, hpool, rfl⟩ := Option.map_eq_some_iff.mp h
    exact .worker rfl (Pool.step_of_step? hpool)
  | notifyGate =>
    obtain ⟨gate, hgate, rfl⟩ := Option.map_eq_some_iff.mp h
    exact .notifyGate hgate
  | beginEnd how =>
    simp only [step?, end?] at h
    split at h
    · rename_i hcond
      have hidle : ∀ c ∈ s.calls, c.isActive = false := by simpa using hcond.2
      cases how <;> cases h
      · exact .beginShutdown hcond.1 hidle
      · exact .beginDrop hcond.1 hidle
    · cases h
  | teardown => exact step_of_teardown? h

/-- A call that has just been made can be looked at. -/
theorem exists_step?_of_created {i : Nat} {c : Call} (hcall : s.calls[i]? = some c)
    (hcreated : c.stage = .created) : ∃ s', s.step? (.poll i) = some s' := by
  obtain ⟨spec, stage⟩ := c
  simp only at hcreated
  subst hcreated
  cases spec <;> exact ⟨_, by rw [step?, poll?, hcall]; rfl⟩

/-! ## Runs -/

/-- Whether actions are allowed and possible in turn, and lead to a service. -/
def Leads (Allows : Service → Action → Prop) (s : Service) : List Action → Service → Prop
  | [], s' => s' = s
  | a :: rest, s' => Allows s a ∧ ∃ next, s.step? a = some next ∧ Leads Allows next rest s'

theorem Reachable.leads {loader : Model.Loader} {files : Files} {settings : Settings}
    {Allows : Service → Action → Prop} {actions : List Action}
    (h : Reachable loader files settings Allows s) (hleads : Leads Allows s actions s') :
    Reachable loader files settings Allows s' := by
  induction actions generalizing s with
  | nil =>
    cases hleads
    exact h
  | cons a rest ih =>
    obtain ⟨hallows, next, hstep, hrest⟩ := hleads
    exact ih (h.step a hallows hstep) hrest

end DecodingDesk.Service
