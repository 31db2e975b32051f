import DecodingDesk.Proofs.Pool.Work
import DecodingDesk.Proofs.Service.Drop
/-!
# Calls made together

Calls for batches are made one after another, and while they are made and after that everybody
acts in any order; nobody gives up, and the service is ended when all calls have returned.
Every step leaves less to do, and as long as the service has not ended somebody can take one.
So all calls return, in whatever order they are looked at and their jobs are run.
-/

namespace DecodingDesk

/-- Whether a waiter goes on when the counter is zero, or is done. -/
def Waiter.isUp : Waiter → Bool
  | idle | registered _ | done => true
  | _ => false

/-- The steps that a waiter has before it when the counter is zero. -/
def Waiter.work : Waiter → Nat
  | idle => 2
  | registered _ => 1
  | _ => 0

/-- When the counter is zero, a waiter that is up and not done goes on. -/
theorem Waiter.exists_step? {w : Waiter} (hup : w.isUp = true) (hdone : w ≠ done) :
    ∃ w', w.step? 0 = some w' ∧ w'.isUp = true ∧ w'.work < w.work := by
  cases w with
  | idle => exact ⟨_, rfl, rfl, by decide⟩
  | registered woken => exact ⟨.done, rfl, rfl, Nat.zero_lt_one⟩
  | done => exact absurd rfl hdone
  | parked | gone => cases hup

theorem Gate.owed_leave (g : Gate) : g.leave.owed = g.owed := by
  unfold leave decrement?
  cases hn : g.inFlight with
  | zero => rfl
  | succ n =>
    cases n with
    | zero => simp [notify?]
    | succ n => simp

namespace Service

variable {size : Nat} {s s' : Service} {a : Action} {specs : List CallSpec}

/-- What may happen when calls are made together: each is made in its turn, nobody gives up, and
the owner ends the service only after the last call. -/
def Together (specs : List CallSpec) (s : Service) : Action → Prop
  | .call spec => specs[s.calls.length]? = some spec
  | .abandon _ => False
  | .beginEnd _ => s.calls.length = specs.length
  | a => s.Follows a

theorem Together.follows (h : Together specs s a) : s.Follows a := by
  cases a with
  | finish i outcome => exact h
  | _ => trivial

variable {loader : Model.Loader} {files : Files} {settings : Settings}

theorem Reachable.follows (h : Reachable loader files settings (Together specs) s) :
    Reachable loader files settings Follows s := by
  induction h with
  | start hcreate => exact .start hcreate
  | step a _ hallowed hstep ih => exact ih.step a hallowed.follows hstep

/-! ## What holds all along -/

/-- A service in which calls for batches are made together. -/
structure Joint (specs : List CallSpec) (s : Service) : Prop where
  batches : ∀ spec ∈ specs, spec.isDocument = false
  inTurn : s.calls.map Call.spec <+: specs
  kept : ∀ c ∈ s.calls, c.stage ≠ .abandoned
  tasks : s.tasks = []
  owed : s.gate.owed = 0
  made : s.handle ≠ .serving → s.calls.length = specs.length
  up : ∀ w, s.handle = .draining w → ∃ x, s.gate.waiters[w]? = some x ∧ x.isUp = true

namespace Joint

theorem spec_mem (h : Joint specs s) {i : Nat} {c : Call} (hcall : s.calls[i]? = some c) :
    c.spec ∈ specs :=
  h.inTurn.subset (List.mem_map_of_mem (List.mem_of_getElem? hcall))

theorem length_calls_le (h : Joint specs s) : s.calls.length ≤ specs.length := by
  simpa using h.inTurn.length_le

/-- When the owner ends the service, nobody is inside the gate. -/
theorem inFlight_eq_zero (h : Joint specs s) (hheld : Held size s) (hcounted : Counted s)
    (hhandle : s.handle ≠ .serving) : s.gate.inFlight = 0 := by
  have hout : s.calls.countP (fun c => c.stage.isInside) = 0 := by
    refine List.countP_eq_zero.mpr fun c hc => ?_
    have hidle := hheld.idle hhandle c hc
    unfold Call.isActive at hidle
    cases hstage : c.stage <;> simp_all [CallStage.isInside]
  rw [hcounted, visits, h.tasks, hout]
  rfl

/-- The owner is the only one who holds the pool. -/
theorem owners_eq_one (h : Joint specs s) (hhandle : s.handle.holdsPool = true) :
    s.owners = 1 := by
  rw [owners, h.tasks, if_pos hhandle]
  rfl

end Joint

theorem specs_setCall (s : Service) (i : Nat) (stage : CallStage) :
    (s.setCall i stage).calls.map Call.spec = s.calls.map Call.spec := by
  refine List.ext_getElem? fun k => ?_
  simp only [setCall, List.getElem?_map, List.getElem?_modify]
  cases s.calls[k]? with
  | none => rfl
  | some c => split <;> rfl

/-- A call has been looked at. -/
theorem Joint.of_setCall (h : Joint specs s) {i : Nat} {stage : CallStage}
    (hstage : stage ≠ .abandoned) (hcalls : s'.calls = (s.setCall i stage).calls)
    (htasks : s'.tasks = s.tasks) (howed : s'.gate.owed = s.gate.owed)
    (hserving : s'.handle = .serving) : Joint specs s' where
  batches := h.batches
  inTurn := by
    rw [hcalls, specs_setCall]
    exact h.inTurn
  kept c hc := by
    rw [hcalls, setCall] at hc
    obtain ⟨k, hk⟩ := List.mem_iff_getElem?.mp hc
    rw [List.getElem?_modify] at hk
    obtain ⟨x, hx, rfl⟩ := Option.map_eq_some_iff.mp hk
    split
    · exact hstage
    · exact h.kept x (List.mem_of_getElem? hx)
  tasks := htasks.trans h.tasks
  owed := howed.trans h.owed
  made hhandle := absurd hserving hhandle
  up w hw := by
    rw [hserving] at hw
    cases hw

/-- Something has happened besides the calls. -/
theorem Joint.of_calls (h : Joint specs s) (hcalls : s'.calls = s.calls)
    (htasks : s'.tasks = s.tasks) (howed : s'.gate.owed = s.gate.owed)
    (hmade : s'.handle ≠ .serving → s.calls.length = specs.length)
    (hup : ∀ w, s'.handle = .draining w → ∃ x, s'.gate.waiters[w]? = some x ∧ x.isUp = true) :
    Joint specs s' where
  batches := h.batches
  inTurn := by
    rw [hcalls]
    exact h.inTurn
  kept := by
    rw [hcalls]
    exact h.kept
  tasks := htasks.trans h.tasks
  owed := howed.trans h.owed
  made := by
    rw [hcalls]
    exact hmade
  up := hup

/-! ## What is left to do -/

/-- The steps that a call for a batch has before it, with those that its job causes. -/
def CallStage.work : CallStage → Nat
  | created => 7
  | entering _ => 2
  | waiting _ => 1
  | _ => 0

def callsWork (cs : List Call) : Nat :=
  cs.foldr (fun c n => c.stage.work + n) 0

/-- The steps that the owner of a pool of so many workers has before him, with those that the end
of the pool causes. -/
def Handle.work (size : Nat) (waiters : List Waiter) : Handle → Nat
  | serving => size + 7
  | draining w => size + 4 + (waiters[w]?).elim 0 Waiter.work
  | releasing _ => size + 3
  | closing _ => 1
  | ended _ => 0

/-- The steps that are left when calls are made together, at most. -/
def toDo (specs : List CallSpec) (s : Service) : Nat :=
  s.pool.work + callsWork s.calls + 8 * (specs.length - s.calls.length) +
    s.handle.work s.pool.size s.gate.waiters

theorem callsWork_setCall {i : Nat} {c : Call} (hcall : s.calls[i]? = some c)
    (stage : CallStage) :
    callsWork (s.setCall i stage).calls + c.stage.work = callsWork s.calls + stage.work := by
  rw [calls_setCall hcall]
  exact foldr_set_add hcall _ fun c : Call => c.stage.work

/-- Looking at a call leaves less to do. -/
theorem toDo_lt_of_setCall {i : Nat} {c : Call} {stage : CallStage}
    (hcall : s.calls[i]? = some c) (hcalls : s'.calls = (s.setCall i stage).calls)
    (hserving : s.handle = .serving) (hhandle : s'.handle = s.handle)
    (hsize : s'.pool.size = s.pool.size)
    (hless : s'.pool.work + stage.work < s.pool.work + c.stage.work) :
    s'.toDo specs < s.toDo specs := by
  have hwork := callsWork_setCall hcall stage
  have hlength : s'.calls.length = s.calls.length := by
    rw [hcalls, calls_setCall hcall, List.length_set]
  simp only [toDo, hhandle, hserving, hsize, hlength, Handle.work]
  rw [hcalls]
  omega

/-- What happens besides the calls leaves less to do if it does so in the pool and for the
owner together. -/
theorem toDo_lt_of_calls (hcalls : s'.calls = s.calls)
    (hless : s'.pool.work + s'.handle.work s'.pool.size s'.gate.waiters <
      s.pool.work + s.handle.work s.pool.size s.gate.waiters) :
    s'.toDo specs < s.toDo specs := by
  simp only [toDo, hcalls]
  omega

/-! ## What one step does -/

theorem isSome_actor?_of_pool? {act : Pool.Action} (hact : a.pool? = some act) :
    act.actor?.isSome := by
  cases a <;> cases hact <;> rfl

namespace Joint

/-- Another call is made. -/
theorem call (h : Joint specs s) (hserving : s.handle = .serving) {spec : CallSpec}
    (hnext : specs[s.calls.length]? = some spec) :
    Joint specs { s with calls := s.calls ++ [{ spec }] } ∧
      toDo specs { s with calls := s.calls ++ [{ spec }] } < s.toDo specs := by
  have hlt := (List.getElem?_eq_some_iff.mp hnext).1
  have hturn : (s.calls ++ [({ spec } : Call)]).map Call.spec <+: specs := by
    obtain ⟨rest, hrest⟩ := h.inTurn
    rw [← hrest, List.getElem?_append_right (by rw [List.length_map]), List.length_map,
      Nat.sub_self] at hnext
    obtain ⟨rest, rfl⟩ := List.head?_eq_some_iff.mp (List.head?_eq_getElem?.trans hnext)
    exact ⟨rest, by rw [List.map_append, List.append_assoc, ← hrest]; rfl⟩
  refine ⟨⟨h.batches, hturn, ?_, h.tasks, h.owed, absurd hserving, h.up⟩, ?_⟩
  · intro c hc
    rcases List.mem_append.mp hc with hc | hc
    · exact h.kept c hc
    · obtain rfl := List.mem_singleton.mp hc
      exact CallStage.noConfusion
  · have hwork : callsWork (s.calls ++ [({ spec } : Call)]) = callsWork s.calls + 7 :=
      foldr_concat_add _ _ fun c : Call => c.stage.work
    simp only [toDo, hwork, List.length_append, List.length_singleton]
    omega

/-- A call is looked at. -/
theorem look (h : Joint specs s) (hheld : Held size s) {i : Nat} {c : Call} {stage : CallStage}
    (hcall : s.calls[i]? = some c) (hactive : c.isActive = true) (hstage : stage ≠ .abandoned)
    (hcalls : s'.calls = (s.setCall i stage).calls) (htasks : s'.tasks = s.tasks)
    (howed : s'.gate.owed = s.gate.owed) (hhandle : s'.handle = s.handle)
    (hsize : s'.pool.size = s.pool.size)
    (hless : s'.pool.work + stage.work < s.pool.work + c.stage.work) :
    Joint specs s' ∧ s'.toDo specs < s.toDo specs := by
  have hserving := hheld.handle_eq hcall hactive
  exact ⟨h.of_setCall hstage hcalls htasks howed (hhandle.trans hserving),
    toDo_lt_of_setCall hcall hcalls hserving hhandle hsize hless⟩

/-- The owner goes on with the end of the service, and does not wait for the gate. -/
theorem teardown (h : Joint specs s) (hends : s.handle ≠ .serving)
    (hcalls : s'.calls = s.calls) (htasks : s'.tasks = s.tasks)
    (howed : s'.gate.owed = s.gate.owed) (hwaits : ∀ w, s'.handle ≠ .draining w)
    (hless : s'.pool.work + s'.handle.work s'.pool.size s'.gate.waiters <
      s.pool.work + s.handle.work s.pool.size s.gate.waiters) :
    Joint specs s' ∧ s'.toDo specs < s.toDo specs :=
  ⟨h.of_calls hcalls htasks howed (fun _ => h.made hends) fun w hw => absurd hw (hwaits w),
    toDo_lt_of_calls hcalls hless⟩

/-- The owner's waiter goes on. -/
theorem waiter (h : Joint specs s) (hzero : s.gate.inFlight = 0) {w : Nat} {gate : Gate}
    (hhandle : s.handle = .draining w) (hgate : s.gate.stepWaiter? w = some gate) :
    Joint specs { s with gate } ∧ toDo specs { s with gate } < s.toDo specs := by
  obtain ⟨x, hx, hup⟩ := h.up w hhandle
  obtain ⟨y, y', hy, hstep, rfl⟩ := Gate.stepWaiter?_eq_some hgate
  rw [hx] at hy
  cases hy
  rw [hzero] at hstep
  have hdone : x ≠ .done := by
    rintro rfl
    cases hstep
  obtain ⟨z, hz, hzup, hless⟩ := x.exists_step? hup hdone
  rw [hstep] at hz
  cases hz
  have hset := getElem?_set_of_getElem? hx y'
  refine ⟨h.of_calls rfl rfl rfl (fun hne => h.made hne) ?_, toDo_lt_of_calls rfl ?_⟩
  · intro v hv
    cases hhandle.symm.trans hv
    exact ⟨y', hset, hzup⟩
  · simp only [hhandle, Handle.work, hset, hx, Option.elim_some]
    omega

/-- Whatever happens leaves less to do. -/
theorem step (h : Joint specs s) (hheld : Held size s) (hcounted : Counted s)
    (hallowed : Together specs s a) (hstep : Step s a s') :
    Joint specs s' ∧ s'.toDo specs < s.toDo specs := by
  have htask : ∀ {j : Nat} {t : TaskStage}, s.tasks[j]? ≠ some t := by
    intro j t
    simp [h.tasks]
  cases hstep with
  | call spec hserving => exact h.call hserving hallowed
  | refuse hcall hr =>
    refine h.look hheld hcall rfl CallStage.noConfusion rfl rfl rfl rfl rfl ?_
    exact Nat.add_lt_add_left (show 0 < 7 by decide) s.pool.work
  | post hcall hvalid hne =>
    refine h.look hheld hcall rfl CallStage.noConfusion rfl rfl rfl rfl rfl ?_
    show Pool.work (s.pool.post _ _) + _ < _
    rw [Pool.work_post]
    simp [CallStage.work]
  | begin hcall => cases h.batches _ (h.spec_mem hcall)
  | enter hcall =>
    refine h.look hheld hcall rfl CallStage.noConfusion rfl rfl rfl rfl rfl ?_
    exact Nat.add_lt_add_left (show 1 < 2 by decide) s.pool.work
  | collect hcall hfuture =>
    refine h.look hheld hcall rfl CallStage.noConfusion rfl rfl s.gate.owed_leave rfl rfl ?_
    exact Nat.add_lt_add_left (show 0 < 1 by decide) s.pool.work
  | join _ hx | work hx | letGo hx | taskClose hx | taskWait hx | taskLeave hx =>
    exact absurd hx htask
  | giveUp | forget => exact hallowed.elim
  | worker hact hpool =>
    refine ⟨h.of_calls rfl rfl rfl (fun hne => h.made hne) h.up, toDo_lt_of_calls rfl ?_⟩
    have hless := hpool.work_lt (isSome_actor?_of_pool? hact)
    have hsize : Pool.size _ = s.pool.size := hpool.length_workers
    simp only [hsize]
    omega
  | notifyGate hgate =>
    rw [Gate.notify?, h.owed] at hgate
    cases hgate
  | beginShutdown hserving hidle =>
    refine ⟨h.of_calls rfl rfl rfl (fun _ => hallowed) ?_, toDo_lt_of_calls rfl ?_⟩
    · rintro w ⟨⟩
      exact ⟨.idle, List.getElem?_concat_length, rfl⟩
    · simp [hserving, Handle.work, Gate.addWaiter, Waiter.work]
  | beginDrop hserving hidle =>
    refine ⟨h.of_calls rfl rfl rfl (fun _ => hallowed) (fun w hw => by cases hw),
      toDo_lt_of_calls rfl ?_⟩
    simp [hserving, Handle.work]
  | drained hhandle hdone =>
    have hends : s.handle ≠ .serving := by
      rw [hhandle]
      exact Handle.noConfusion
    refine h.teardown hends rfl rfl rfl (fun w => Handle.noConfusion) ?_
    simp only [hhandle, Handle.work]
    omega
  | waiter hhandle hgate =>
    have hends : s.handle ≠ .serving := by
      rw [hhandle]
      exact Handle.noConfusion
    exact h.waiter (h.inFlight_eq_zero hheld hcounted hends) hhandle hgate
  | handleClose hhandle howners hpool =>
    have hends : s.handle ≠ .serving := by
      rw [hhandle]
      exact Handle.noConfusion
    refine h.teardown hends rfl rfl rfl (fun w => Handle.noConfusion) ?_
    cases hpool with
    | close hphase =>
      rw [Pool.work_close hphase, hhandle]
      simp only [Handle.work, Pool.size]
      omega
  | handleLeave hhandle howners => exact absurd (h.owners_eq_one (by rw [hhandle]; rfl)) howners
  | @handleWait how act pool hhandle hact hpool =>
    have hends : s.handle ≠ .serving := by
      rw [hhandle]
      exact Handle.noConfusion
    refine h.teardown hends rfl rfl rfl (fun w => ?_) ?_
    · simp only
      split <;> exact Handle.noConfusion
    · rcases hact with rfl | rfl
      · cases hpool with
        | wakeAll hphase =>
          have hless := Pool.work_wakeAll hphase
          simp only [hhandle, reduceCtorEq, if_false, Handle.work]
          omega
      · cases hpool with
        | join hphase _ => simp [hhandle, Handle.work, Pool.work_eq, hphase]

end Joint

end Service

end DecodingDesk
