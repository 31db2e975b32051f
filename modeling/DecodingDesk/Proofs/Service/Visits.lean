import DecodingDesk.Proofs.Service.Ownership
/-!
# Who is inside the gate

The counter of the gate is the number of document tasks that are not over and of calls
for batches that wait.  A task gives up the pool before it leaves the gate, so nobody
but the owner of the service holds the pool when the gate is empty.
-/

namespace DecodingDesk.Service

variable {size : Nat} {s s' : Service} {a : Action}

def TaskStage.isInside : TaskStage → Bool
  | ended _ => false
  | _ => true

def CallStage.isInside : CallStage → Bool
  | waiting _ => true
  | _ => false

def visits (s : Service) : Nat :=
  s.tasks.countP TaskStage.isInside + s.calls.countP fun c => c.stage.isInside

private theorem visits_setCall {i : Nat} {c : Call} (h : s.calls[i]? = some c)
    (stage : CallStage) :
    (s.setCall i stage).visits + (if c.stage.isInside then 1 else 0) =
      s.visits + if stage.isInside then 1 else 0 := by
  have hcount : (s.calls.set i { c with stage }).countP (fun c => c.stage.isInside) +
      (if c.stage.isInside then 1 else 0) =
        s.calls.countP (fun c => c.stage.isInside) + if stage.isInside then 1 else 0 :=
    countP_set_add h _ _
  rw [visits, visits, calls_setCall h, Nat.add_assoc, hcount, Nat.add_assoc]
  rfl

theorem visits_setCall_of_eq {i : Nat} {c : Call} {stage : CallStage}
    (h : s.calls[i]? = some c) (hsame : stage.isInside = c.stage.isInside) :
    (s.setCall i stage).visits = s.visits := by
  have hset := visits_setCall h stage
  rw [hsame] at hset
  omega

theorem visits_setCall_of_enter {i : Nat} {c : Call} {stage : CallStage}
    (h : s.calls[i]? = some c) (hout : c.stage.isInside = false) (hin : stage.isInside = true) :
    (s.setCall i stage).visits = s.visits + 1 := by
  have hset := visits_setCall h stage
  rwa [hout, hin] at hset

theorem visits_setCall_of_leave {i : Nat} {c : Call} {stage : CallStage}
    (h : s.calls[i]? = some c) (hin : c.stage.isInside = true) (hout : stage.isInside = false) :
    (s.setCall i stage).visits + 1 = s.visits := by
  have hset := visits_setCall h stage
  rwa [hout, hin] at hset

private theorem visits_setTask {j : Nat} {t : TaskStage} (h : s.tasks[j]? = some t)
    (stage : TaskStage) :
    (s.setTask j stage).visits + (if t.isInside then 1 else 0) =
      s.visits + if stage.isInside then 1 else 0 := by
  have hcount := countP_set_add h stage TaskStage.isInside
  show (s.tasks.set j stage).countP TaskStage.isInside +
      s.calls.countP (fun c => c.stage.isInside) + _ =
    s.tasks.countP TaskStage.isInside + s.calls.countP (fun c => c.stage.isInside) + _
  omega

theorem visits_setTask_of_eq {j : Nat} {t stage : TaskStage} (h : s.tasks[j]? = some t)
    (hsame : stage.isInside = t.isInside) : (s.setTask j stage).visits = s.visits := by
  have hset := visits_setTask h stage
  rw [hsame] at hset
  omega

theorem visits_setTask_of_leave {j : Nat} {t stage : TaskStage} (h : s.tasks[j]? = some t)
    (hin : t.isInside = true) (hout : stage.isInside = false) :
    (s.setTask j stage).visits + 1 = s.visits := by
  have hset := visits_setTask h stage
  rwa [hout, hin] at hset

theorem visits_append_task {i : Nat} {c : Call} {stage : CallStage} {t : TaskStage}
    (h : s.calls[i]? = some c) (hsame : stage.isInside = c.stage.isInside)
    (hin : t.isInside = true) :
    ({ s with tasks := s.tasks ++ [t] }.setCall i stage).visits = s.visits + 1 := by
  have happend : visits { s with tasks := s.tasks ++ [t] } = s.visits + 1 := by
    simp only [visits, List.countP_append, List.countP_singleton, hin, if_true]
    omega
  rw [← happend]
  exact visits_setCall_of_eq (s := { s with tasks := s.tasks ++ [t] }) h hsame

theorem isInside_ofTask (task : Document.Task) : (TaskStage.ofTask task).isInside = true := by
  unfold TaskStage.ofTask
  split <;> rfl

/-! ## The counter -/

/-- The counter of the gate counts the visits. -/
def Counted (s : Service) : Prop :=
  s.gate.inFlight = s.visits

private theorem counted_of_leave {n : Nat} (h : Counted s) (hvisits : n + 1 = s.visits) :
    s.gate.leave.inFlight = n := by
  rw [Gate.inFlight_leave, h, ← hvisits, Nat.add_sub_cancel]

theorem Counted.step (h : Counted s) (hstep : Step s a s') : Counted s' := by
  cases hstep with
  | call spec _ =>
    show s.gate.inFlight = _
    rw [h]
    simp [visits, CallStage.isInside]
  | refuse hcall | post hcall | join hcall =>
    exact h.trans (visits_setCall_of_eq hcall (by rfl)).symm
  | giveUp hcall hstage =>
    exact h.trans (visits_setCall_of_eq hcall
      (by rcases hstage with rfl | ⟨j, rfl⟩ <;> rfl)).symm
  | begin hcall hvalid hne =>
    exact (congrArg (· + 1) h).trans (visits_append_task hcall (by rfl) (by rfl)).symm
  | enter hcall =>
    exact (congrArg (· + 1) h).trans (visits_setCall_of_enter hcall (by rfl) (by rfl)).symm
  | collect hcall hfuture =>
    exact counted_of_leave h (visits_setCall_of_leave hcall (by rfl) (by rfl))
  | forget hcall hpool =>
    exact counted_of_leave h (visits_setCall_of_leave hcall (by rfl) (by rfl))
  | work htask hstep =>
    exact h.trans (visits_setTask_of_eq htask (isInside_ofTask _)).symm
  | letGo htask | taskClose htask => exact h.trans (visits_setTask_of_eq htask (by rfl)).symm
  | taskWait htask hact hpool =>
    exact h.trans (visits_setTask_of_eq htask (by split <;> rfl)).symm
  | @taskLeave j r gate htask hgate =>
    have hcount := Gate.inFlight_decrement? hgate
    have hover : (s.setTask j (.ended r)).visits + 1 = s.visits :=
      visits_setTask_of_leave htask rfl rfl
    rw [h] at hcount
    show gate.inFlight = (s.setTask j (.ended r)).visits
    omega
  | notifyGate hgate => exact (Gate.inFlight_notify? hgate).trans h
  | waiter hhandle hgate =>
    obtain ⟨w, w', -, -, rfl⟩ := Gate.stepWaiter?_eq_some hgate
    exact h
  | worker | beginShutdown | beginDrop | drained | handleClose | handleLeave | handleWait =>
    exact h

theorem Reachable.counted {loader : Model.Loader} {files : Files} {settings : Settings}
    {Allows : Service → Action → Prop} (h : Reachable loader files settings Allows s) :
    Counted s := by
  induction h with
  | start hcreate =>
    obtain ⟨-, -, hcalls, htasks, -, hgate⟩ := create_spec hcreate
    rw [Counted, hgate, visits, hcalls, htasks]
    rfl
  | step a _ _ hstep ih => exact ih.step (step_of_step? hstep)

/-- A task that holds the pool is inside the gate. -/
theorem Counted.holders_le (h : Counted s) :
    s.tasks.countP TaskStage.holdsPool ≤ s.gate.inFlight := by
  have hmono : s.tasks.countP TaskStage.holdsPool ≤ s.tasks.countP TaskStage.isInside := by
    apply List.countP_mono_left
    intro t _ ht
    cases t <;> first | rfl | cases ht
  calc s.tasks.countP TaskStage.holdsPool
      ≤ s.tasks.countP TaskStage.isInside := hmono
    _ ≤ s.visits := Nat.le_add_right _ _
    _ = s.gate.inFlight := h.symm

/-- When the gate is empty, every task is over. -/
theorem Counted.ended_of_mem (h : Counted s) (hzero : s.gate.inFlight = 0) {t : TaskStage}
    (ht : t ∈ s.tasks) : ∃ r, t = .ended r := by
  have hnone : s.tasks.countP TaskStage.isInside = 0 := by
    rw [h, visits] at hzero
    omega
  have hout := List.countP_eq_zero.mp hnone t ht
  cases t with
  | ended r => exact ⟨r, rfl⟩
  | _ => exact absurd rfl hout

/-- A task inside the gate can leave it. -/
theorem Counted.exists_decrement? (h : Counted s) {j : Nat} {t : TaskStage}
    (htask : s.tasks[j]? = some t) (hinside : t.isInside = true) :
    ∃ gate, s.gate.decrement? = some gate := by
  have hpos := List.countP_pos_iff.mpr ⟨t, List.mem_of_getElem? htask, hinside⟩
  rw [Counted, visits] at h
  unfold Gate.decrement?
  split
  · omega
  · exact ⟨_, rfl⟩

end DecodingDesk.Service
