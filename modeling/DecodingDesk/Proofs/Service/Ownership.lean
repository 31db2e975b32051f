import DecodingDesk.Proofs.Document.Course
import DecodingDesk.Proofs.Service.Create
import DecodingDesk.Proofs.Service.Step
/-!
# Who holds the pool

The owner of the service and the document tasks at work hold the pool, and as long as
anybody does it is open.  Only then are calls looked at and chunks posted, so that
everything a service does to its pool is something that can happen in a pool.
-/

namespace DecodingDesk.Service

variable {size : Nat} {s s' : Service} {a : Action}

/-! ## Calls and tasks at other stages -/

theorem calls_setCall {i : Nat} {c : Call} (h : s.calls[i]? = some c) (stage : CallStage) :
    (s.setCall i stage).calls = s.calls.set i { c with stage } := by
  rw [setCall, List.modify_eq_set_getElem?, h]
  rfl

private theorem owners_setTask {j : Nat} {t : TaskStage} (h : s.tasks[j]? = some t)
    (stage : TaskStage) :
    (s.setTask j stage).owners + (if t.holdsPool then 1 else 0) =
      s.owners + if stage.holdsPool then 1 else 0 := by
  have hcount := countP_set_add h stage TaskStage.holdsPool
  show (s.tasks.set j stage).countP TaskStage.holdsPool + (if s.handle.holdsPool then 1 else 0) +
    _ = s.tasks.countP TaskStage.holdsPool + (if s.handle.holdsPool then 1 else 0) + _
  omega

theorem owners_setTask_of_release {j : Nat} {t stage : TaskStage} (h : s.tasks[j]? = some t)
    (ht : t.holdsPool = true) (hstage : stage.holdsPool = false) :
    (s.setTask j stage).owners + 1 = s.owners := by
  simpa [ht, hstage] using owners_setTask h stage

theorem owners_setTask_of_eq {j : Nat} {t stage : TaskStage} (h : s.tasks[j]? = some t)
    (hsame : stage.holdsPool = t.holdsPool) : (s.setTask j stage).owners = s.owners := by
  have hset := owners_setTask h stage
  rw [hsame] at hset
  omega

theorem owners_of_handle {s s' : Service} (htasks : s'.tasks = s.tasks)
    (hhandle : s'.handle.holdsPool = s.handle.holdsPool) : s'.owners = s.owners := by
  rw [owners, owners, htasks, hhandle]

theorem owners_of_handle_release {s s' : Service} (htasks : s'.tasks = s.tasks)
    (hheld : s.handle.holdsPool = true) (hhandle : s'.handle.holdsPool = false) :
    s'.owners + 1 = s.owners := by
  simp [owners, htasks, hheld, hhandle]

theorem owners_pos_of_handle (h : s.handle.holdsPool = true) : 0 < s.owners := by
  rw [owners, if_pos h]
  exact Nat.succ_pos _

theorem owners_pos_of_task {j : Nat} {t : TaskStage} (h : s.tasks[j]? = some t)
    (ht : t.holdsPool = true) : 0 < s.owners := by
  have hpos := List.countP_pos_iff.mpr ⟨t, List.mem_of_getElem? h, ht⟩
  rw [owners]
  omega

/-! ## The invariant -/

/-- The pool is open as long as anybody holds it, and calls need the owner of the service. -/
structure Held (size : Nat) (s : Service) : Prop where
  pool : Pool.Reachable size s.pool
  serving : 0 < s.owners → s.pool.phase = .serving
  idle : s.handle ≠ .serving → ∀ c ∈ s.calls, c.isActive = false

theorem Held.handle_eq (h : Held size s) {i : Nat} {c : Call} (hcall : s.calls[i]? = some c)
    (hactive : c.isActive = true) : s.handle = .serving := by
  by_contra hhandle
  have hidle := h.idle hhandle c (List.mem_of_getElem? hcall)
  rw [hactive] at hidle
  cases hidle

theorem Held.phase_of_call (h : Held size s) {i : Nat} {c : Call} (hcall : s.calls[i]? = some c)
    (hactive : c.isActive = true) : s.pool.phase = .serving :=
  h.serving (owners_pos_of_handle (by rw [h.handle_eq hcall hactive]; rfl))

/-- What a service does to its pool can happen in a pool. -/
theorem Held.pool_step (h : Held size s) (hstep : Step s a s') :
    s'.pool = s.pool ∨
      ∃ act, Pool.Step s.pool act s'.pool ∧ (a.pool? = some act ∨ ∀ i o, act ≠ .finish i o) := by
  cases hstep with
  | post hcall hvalid hne =>
    exact .inr ⟨_, .post _ _ (h.phase_of_call hcall rfl), .inr (by simp)⟩
  | forget hcall hpool => exact .inr ⟨_, hpool, .inr (by simp)⟩
  | work htask hstep =>
    have hserving := h.serving (owners_pos_of_task htask rfl)
    rcases Document.Task.pool_of_step? hstep with rfl | ⟨batch, options, rfl⟩
    · exact .inl rfl
    · exact .inr ⟨_, .post batch options hserving, .inr (by simp)⟩
  | taskClose htask howners hpool => exact .inr ⟨_, hpool, .inr (by simp)⟩
  | handleClose hhandle howners hpool => exact .inr ⟨_, hpool, .inr (by simp)⟩
  | taskWait htask hact hpool =>
    exact .inr ⟨_, hpool, .inr (by rcases hact with rfl | rfl <;> simp)⟩
  | handleWait hhandle hact hpool =>
    exact .inr ⟨_, hpool, .inr (by rcases hact with rfl | rfl <;> simp)⟩
  | worker hact hpool => exact .inr ⟨_, hpool, .inl hact⟩
  | _ => exact .inl rfl

theorem Held.reachable_pool (h : Held size s) (hstep : Step s a s') :
    Pool.Reachable size s'.pool := by
  rcases h.pool_step hstep with hsame | ⟨act, hpool, -⟩
  · rw [hsame]
    exact h.pool
  · exact h.pool.step act (Pool.step?_of_step hpool)

/-- Who closed the pool waits for its workers when nobody holds it. -/
theorem Held.owners_eq_zero (h : Held size s) {act : Pool.Action} {pool : Pool}
    (hact : act = .wakeAll ∨ act = .join) (hpool : Pool.Step s.pool act pool) : s.owners = 0 := by
  by_contra hne
  have hserving := h.serving (Nat.pos_of_ne_zero hne)
  rcases hact with rfl | rfl
  · cases hpool with
    | wakeAll hclosed =>
      rw [hserving] at hclosed
      cases hclosed
  · cases hpool with
    | join hnotified _ =>
      rw [hserving] at hnotified
      cases hnotified

theorem Held.serving_step (h : Held size s) (hstep : Step s a s') (hpos : 0 < s'.owners) :
    s'.pool.phase = .serving := by
  cases hstep with
  | call | refuse | enter | collect | join | giveUp | notifyGate | waiter => exact h.serving hpos
  | post hcall | begin hcall => exact h.phase_of_call hcall rfl
  | forget hcall hpool => exact hpool.phase_serving (h.phase_of_call hcall rfl) (by simp)
  | work htask hstep =>
    have hserving := h.serving (owners_pos_of_task htask rfl)
    rcases Document.Task.pool_of_step? hstep with rfl | ⟨batch, options, rfl⟩
    · exact hserving
    · exact hserving
  | @letGo j r htask _ => exact h.serving (owners_pos_of_task htask rfl)
  | @taskClose j r pool htask howners hpool =>
    have hlast : (s.setTask j (.closing r)).owners + 1 = s.owners :=
      owners_setTask_of_release htask rfl rfl
    have hpos : 0 < (s.setTask j (.closing r)).owners := hpos
    omega
  | @taskWait j r act pool htask hact hpool =>
    have hzero := h.owners_eq_zero hact hpool
    have hsame : (s.setTask j (if pool.phase = Pool.Phase.joined then .leaving r
        else .closing r)).owners = s.owners :=
      owners_setTask_of_eq htask (by split <;> rfl)
    rw [hzero] at hsame
    exact absurd hsame (Nat.pos_iff_ne_zero.mp hpos)
  | @taskLeave j r gate htask hgate =>
    have hsame : (s.setTask j (.ended r)).owners = s.owners := owners_setTask_of_eq htask rfl
    exact h.serving (hsame ▸ hpos)
  | worker hact hpool =>
    refine hpool.phase_serving (h.serving hpos) ?_
    rintro rfl
    cases a <;> cases hact
  | beginShutdown hserving _ =>
    exact h.serving (owners_pos_of_handle (by rw [hserving]; rfl))
  | beginDrop hserving _ => exact h.serving (owners_pos_of_handle (by rw [hserving]; rfl))
  | drained hhandle _ => exact h.serving (owners_pos_of_handle (by rw [hhandle]; rfl))
  | handleLeave hhandle _ => exact h.serving (owners_pos_of_handle (by rw [hhandle]; rfl))
  | @handleClose how pool hhandle howners hpool =>
    have hlast : owners { s with pool, handle := .closing how } + 1 = s.owners :=
      owners_of_handle_release rfl (by rw [hhandle]; rfl) rfl
    omega
  | @handleWait how act pool hhandle hact hpool =>
    have hzero := h.owners_eq_zero hact hpool
    have hsame : owners { s with
        pool
        handle := if pool.phase = Pool.Phase.joined then .ended how else .closing how } =
          s.owners := by
      refine owners_of_handle rfl ?_
      rw [hhandle]
      show (if pool.phase = Pool.Phase.joined then Handle.ended how else .closing how).holdsPool = _
      split <;> rfl
    omega

/-- Calls are looked at only while the service serves. -/
theorem Held.idle_step (h : Held size s) (hstep : Step s a s') (hhandle : s'.handle ≠ .serving) :
    ∀ c ∈ s'.calls, c.isActive = false := by
  cases hstep with
  | call spec hserving => exact absurd hserving hhandle
  | refuse hcall | post hcall | begin hcall | enter hcall | collect hcall | join hcall
  | forget hcall => exact absurd (h.handle_eq hcall rfl) hhandle
  | giveUp hcall hstage =>
    exact absurd (h.handle_eq hcall (by rcases hstage with rfl | ⟨j, rfl⟩ <;> rfl)) hhandle
  | work | letGo | taskClose | taskWait | taskLeave | worker | notifyGate =>
    exact h.idle hhandle
  | beginShutdown _ hidle | beginDrop _ hidle => exact hidle
  | drained hdraining | waiter hdraining | handleClose hdraining | handleLeave hdraining
  | handleWait hdraining => exact h.idle (by rw [hdraining]; simp)

theorem Held.step (h : Held size s) (hstep : Step s a s') : Held size s' where
  pool := h.reachable_pool hstep
  serving := h.serving_step hstep
  idle := h.idle_step hstep

/-! ## Services that can come about -/

variable {loader : Model.Loader} {files : Files} {settings : Settings}
  {Allows : Service → Action → Prop}

/-- A new service has an open pool and no calls. -/
theorem create_spec (h : (create loader files settings).result = .ok s) :
    s.pool = Pool.start settings.poolSize.toNat ∧ 0 < settings.poolSize.toNat ∧
      s.calls = [] ∧ s.tasks = [] ∧ s.handle = .serving ∧ s.gate = {} := by
  obtain ⟨hsize, -, device, model, -, -, rfl⟩ := createWith_eq_ok_iff.mp h
  exact ⟨rfl, hsize, rfl, rfl, rfl, rfl⟩

theorem files_of_create (h : (create loader files settings).result = .ok s) : s.files = files := by
  obtain ⟨-, -, device, model, -, -, rfl⟩ := createWith_eq_ok_iff.mp h
  rfl

/-- A new service is around a model that the loader gave. -/
theorem exists_request_of_create (h : (create loader files settings).result = .ok s) :
    ∃ request, loader request = .ok s.model := by
  obtain ⟨-, -, device, model, -, hload, rfl⟩ := createWith_eq_ok_iff.mp h
  exact ⟨_, hload⟩

theorem Reachable.poolSize_pos (h : Reachable loader files settings Allows s) :
    0 < settings.poolSize.toNat := by
  induction h with
  | start hcreate => exact (create_spec hcreate).2.1
  | step a _ _ _ ih => exact ih

theorem Reachable.held (h : Reachable loader files settings Allows s) :
    Held settings.poolSize.toNat s := by
  induction h with
  | start hcreate =>
    obtain ⟨hpool, -, hcalls, -, hhandle, -⟩ := create_spec hcreate
    refine ⟨by rw [hpool]; exact .start, fun _ => by rw [hpool]; rfl, fun hne => ?_⟩
    exact absurd hhandle hne
  | step a _ _ hstep ih => exact ih.step (step_of_step? hstep)

end DecodingDesk.Service
