import DecodingDesk.Proofs.Service.Run
import DecodingDesk.Proofs.Service.Together
import DecodingDesk.Service.Schedule
/-!
# Calls made together complete

As long as the service has not ended somebody can act, and no run is longer than what there is
to do in the beginning.  So every run that goes on as long as it can comes to the end of the
service, and by then every call has returned what it returns by itself.
-/

namespace DecodingDesk.Service

variable {loader : Model.Loader} {files : Files} {settings : Settings} {size : Nat}
  {s s' : Service} {a : Action} {specs : List CallSpec}

/-- What a call for a batch returns by itself. -/
def CallSpec.alone? (model : Model) : CallSpec → Option CallReply
  | .batch tokens params => some (Service.alone model tokens params)
  | .document .. => none

/-! ## Nobody is stuck -/

/-- A call for a batch that has not returned can be looked at as soon as nobody can act in the
pool. -/
theorem Reachable.exists_poll (h : Reachable loader files settings Follows s)
    (hmodel : ∀ b o, s.model b o ≠ .panicked .lethal) (hidle : s.pool.IsIdle) {i : Nat} {c : Call}
    (hcall : s.calls[i]? = some c) (hbatch : c.spec.isDocument = false)
    (hactive : c.isActive = true) : ∃ s', s.step? (.poll i) = some s' := by
  obtain ⟨jobs, hroutes⟩ := h.routes
  obtain ⟨spec, stage⟩ := c
  cases spec with
  | document => cases hbatch
  | batch tokens params =>
    have htraced := hroutes.traced i _ hcall tokens params rfl
    have hphase := h.held.phase_of_call hcall hactive
    generalize jobs i = job? at htraced
    simp only at htraced
    cases htraced with
    | created => exact exists_step?_of_created hcall rfl
    | entering hjob => exact ⟨_, by simp [step?, poll?, hcall]; rfl⟩
    | waiting hjob =>
      obtain ⟨reply, hreply⟩ := h.held.pool.settled_of_isIdle h.obeys hphase h.poolSize_pos hmodel
        hidle hjob.posted
      exact ⟨_, by simp [step?, poll?, hcall, hreply]; rfl⟩
    | refused | replied | abandoned => cases hactive

/-- What workers do in the pool they do in the service. -/
theorem step?_of_pool {act : Pool.Action} (hact : a.pool? = some act) {pool : Pool}
    (hpool : Pool.Step s.pool act pool) : s.step? a = some { s with pool } := by
  have hstep := Pool.step?_of_step hpool
  cases a <;> cases hact <;> simp [step?, hstep]

theorem pool?_of_ofPoolAction {act : Pool.Action} (h : ofPoolAction act = some a) :
    a.pool? = some act := by
  cases act <;> cases h <;> rfl

theorem exists_ofPoolAction {act : Pool.Action} (hactor : act.actor?.isSome) :
    ∃ a, ofPoolAction act = some a := by
  cases act with
  | notify | look | finish => exact ⟨_, rfl⟩
  | _ => cases hactor

theorem Together.of_pool? {act : Pool.Action} (hact : a.pool? = some act)
    (h : s.pool.Follows s.model act) : Together specs s a := by
  cases a with
  | finish i outcome =>
    cases hact
    exact h
  | notifyWorker | look => trivial
  | _ => cases hact

/-- As long as somebody can act in the pool, somebody can act in the service. -/
theorem exists_step_of_not_isIdle (hphase : s.pool.phase ≠ .closed) (hidle : ¬s.pool.IsIdle) :
    ∃ a s', Together specs s a ∧ s.step? a = some s' := by
  obtain ⟨act, pool, hactor, hfollows, hpool⟩ :=
    Pool.exists_step_of_not_isIdle hphase hidle s.model
  obtain ⟨a, hof⟩ := exists_ofPoolAction hactor
  have hact := pool?_of_ofPoolAction hof
  exact ⟨a, _, .of_pool? hact hfollows, step?_of_pool hact hpool⟩

theorem Reachable.joint (h : Reachable loader files settings (Together specs) s)
    (hbatches : ∀ spec ∈ specs, spec.isDocument = false) : Joint specs s := by
  induction h with
  | start hcreate =>
    obtain ⟨-, -, hcalls, htasks, hhandle, hgate⟩ := create_spec hcreate
    refine ⟨hbatches, ?_, ?_, htasks, ?_, absurd hhandle, ?_⟩
    · rw [hcalls]
      exact List.nil_prefix
    · rw [hcalls]
      exact List.forall_mem_nil _
    · rw [hgate]
    · intro w hw
      rw [hhandle] at hw
      cases hw
  | step a hreach hallowed hstep ih =>
    exact (ih.step hreach.held hreach.counted hallowed (step_of_step? hstep)).1

theorem Reachable.toDo_lt (h : Reachable loader files settings (Together specs) s)
    (hbatches : ∀ spec ∈ specs, spec.isDocument = false) (hallowed : Together specs s a)
    (hstep : s.step? a = some s') : s'.toDo specs < s.toDo specs :=
  ((h.joint hbatches).step h.held h.counted hallowed (step_of_step? hstep)).2

/-- No run is longer than what there is to do in the beginning. -/
theorem Reachable.length_le_toDo (h : Reachable loader files settings (Together specs) s)
    (hbatches : ∀ spec ∈ specs, spec.isDocument = false) {actions : List Action}
    (hleads : Leads (Together specs) s actions s') : actions.length ≤ s.toDo specs := by
  induction actions generalizing s with
  | nil => exact Nat.zero_le _
  | cons a rest ih =>
    obtain ⟨hallowed, next, hstep, hrest⟩ := hleads
    have hless := h.toDo_lt hbatches hallowed hstep
    have hlength := ih (h.step a hallowed hstep) hrest
    rw [List.length_cons]
    omega

namespace Joint

/-- As long as the service serves, somebody can act: the next caller, somebody in the pool, a
caller whose call has not returned, or else the owner. -/
theorem exists_step_serving (h : Joint specs s)
    (hreach : Reachable loader files settings Follows s)
    (hmodel : ∀ b o, s.model b o ≠ .panicked .lethal) (hserving : s.handle = .serving) :
    ∃ a s', Together specs s a ∧ s.step? a = some s' := by
  have hopen := hreach.held.serving (owners_pos_of_handle (by rw [hserving]; rfl))
  by_cases hidle : s.pool.IsIdle
  case neg => exact exists_step_of_not_isIdle (by rw [hopen]; exact Pool.Phase.noConfusion) hidle
  rcases Nat.lt_or_ge s.calls.length specs.length with hlt | hge
  · exact ⟨.call _, _, List.getElem?_eq_getElem hlt, if_pos hserving⟩
  by_cases hactive : ∃ c ∈ s.calls, c.isActive = true
  · obtain ⟨c, hc, hactive⟩ := hactive
    obtain ⟨i, hi⟩ := List.mem_iff_getElem?.mp hc
    obtain ⟨s', hs'⟩ :=
      hreach.exists_poll hmodel hidle hi (h.batches _ (h.spec_mem hi)) hactive
    exact ⟨.poll i, s', trivial, hs'⟩
  · have hall : s.calls.all (fun c => !c.isActive) = true := by simpa using hactive
    exact ⟨.beginEnd .drop, _, Nat.le_antisymm h.length_calls_le hge, if_pos ⟨hserving, hall⟩⟩

/-- The owner's waiter finds the gate empty. -/
theorem exists_step_draining (h : Joint specs s) (hzero : s.gate.inFlight = 0) {w : Nat}
    (hhandle : s.handle = .draining w) : ∃ s', s.step? .teardown = some s' := by
  obtain ⟨x, hx, hup⟩ := h.up w hhandle
  by_cases hdone : x = .done
  · subst hdone
    exact ⟨_, by simp [step?, teardown?, hhandle, hx]; rfl⟩
  · obtain ⟨y, hy, -⟩ := x.exists_step? hup hdone
    rw [← hzero] at hy
    exact ⟨_, by simp [step?, teardown?, hhandle, hx, hdone, Gate.stepWaiter?, hy]; rfl⟩

/-- Who has closed the pool wakes its workers, waits for them, and joins them. -/
theorem exists_step_closing (h : Joint specs s)
    (hreach : Reachable loader files settings Follows s) {how : Teardown}
    (hhandle : s.handle = .closing how) : ∃ a s', Together specs s a ∧ s.step? a = some s' := by
  have hclosers := hreach.custody.awaited
  rw [closers, h.tasks, hhandle] at hclosers
  cases hphase : s.pool.phase with
  | serving | joined =>
    rw [hphase] at hclosers
    cases hclosers
  | closed =>
    have hwake := Pool.step?_of_step (.wakeAll hphase)
    exact ⟨.teardown, _, trivial, by simp [step?, teardown?, hhandle, closePool?, hwake]; rfl⟩
  | notified =>
    by_cases hidle : s.pool.IsIdle
    · have hjoin := Pool.step?_of_step
        (.join hphase (hreach.held.pool.gone_of_isIdle hphase hidle))
      have hnowake : s.pool.step? .wakeAll = none := by simp [Pool.step?, hphase]
      exact ⟨.teardown, _, trivial,
        by simp [step?, teardown?, hhandle, closePool?, hnowake, hjoin]; rfl⟩
    · exact exists_step_of_not_isIdle (by rw [hphase]; exact Pool.Phase.noConfusion) hidle

end Joint

/-- As long as the service has not ended, somebody can act. -/
theorem Reachable.exists_step (h : Reachable loader files settings (Together specs) s)
    (hbatches : ∀ spec ∈ specs, spec.isDocument = false)
    (hmodel : ∀ b o, s.model b o ≠ .panicked .lethal) (hended : ∀ how, s.handle ≠ .ended how) :
    ∃ a s', Together specs s a ∧ s.step? a = some s' := by
  have hjoint := h.joint hbatches
  cases hhandle : s.handle with
  | serving => exact hjoint.exists_step_serving h.follows hmodel hhandle
  | draining w =>
    have hzero := hjoint.inFlight_eq_zero h.held h.counted (by rw [hhandle]; exact Handle.noConfusion)
    obtain ⟨s', hs'⟩ := hjoint.exists_step_draining hzero hhandle
    exact ⟨.teardown, s', trivial, hs'⟩
  | releasing how =>
    have hholds : s.handle.holdsPool = true := by
      rw [hhandle]
      rfl
    have hclose := Pool.step?_of_step (.close (h.held.serving (owners_pos_of_handle hholds)))
    exact ⟨.teardown, _, trivial,
      by simp [step?, teardown?, hhandle, hjoint.owners_eq_one hholds, hclose]; rfl⟩
  | closing how => exact hjoint.exists_step_closing h.follows hhandle
  | ended how => exact absurd hhandle (hended how)

/-! ## What has been returned -/

/-- Calls that have all been made and are used no more have returned what they return by
themselves. -/
theorem Reachable.replies_eq (h : Reachable loader files settings (Together specs) s)
    (hbatches : ∀ spec ∈ specs, spec.isDocument = false) (hmade : s.calls.length = specs.length)
    (hidle : ∀ c ∈ s.calls, c.isActive = false) :
    (List.range specs.length).map s.reply? = specs.map (CallSpec.alone? s.model) := by
  have hjoint := h.joint hbatches
  have hspecs : s.calls.map Call.spec = specs :=
    hjoint.inTurn.eq_of_length (by rw [List.length_map, hmade])
  refine List.ext_getElem? fun k => ?_
  rw [List.getElem?_map, List.getElem?_map, ← hspecs, List.getElem?_map, List.length_map]
  cases hcall : s.calls[k]? with
  | none =>
    rw [List.getElem?_eq_none (by simpa using hcall)]
    rfl
  | some c =>
    rw [List.getElem?_range (List.getElem?_eq_some_iff.mp hcall).1]
    have hmem := List.mem_of_getElem? hcall
    have hbatch := hbatches _ (hjoint.spec_mem hcall)
    have hover := hidle c hmem
    have hkept := hjoint.kept c hmem
    obtain ⟨spec, stage⟩ := c
    cases spec with
    | document => cases hbatch
    | batch tokens params =>
      cases h.follows.isolated.routed _ hmem tokens params rfl with
      | returned => simp [reply?, hcall, CallSpec.alone?]
      | created | entering | waiting => cases hover
      | abandoned => exact absurd rfl hkept

theorem Reachable.model_eq {Allows : Service → Action → Prop} {start : Service}
    (h : Reachable loader files settings Allows s)
    (hcreate : (create loader files settings).result = .ok start) : s.model = start.model := by
  induction h with
  | start hs =>
    rw [hcreate] at hs
    cases hs
    rfl
  | step a _ _ hstep ih => exact (step_of_step? hstep).model_eq.trans ih

/-! ## Every run -/

/-- Calls made together on a service complete, with what they return, however everybody acts: no
run is longer than some bound, and as long as the service has not ended somebody can act; it ends
only when the calls have all been made and are used no more, and then they have returned. -/
structure Complete (specs : List CallSpec) (start : Service) (replies : List (Option CallReply)) :
    Prop where
  bounded : ∃ bound, ∀ actions s, Leads (Together specs) start actions s → actions.length ≤ bound
  goesOn : ∀ actions s, Leads (Together specs) start actions s →
    (∃ how, s.handle = .ended how) ∨ ∃ a s', Together specs s a ∧ s.step? a = some s'
  isOver : ∀ actions s, Leads (Together specs) start actions s → ∀ how, s.handle = .ended how →
    s.calls.length = specs.length ∧ ∀ c ∈ s.calls, c.isActive = false
  replies : ∀ actions s, Leads (Together specs) start actions s →
    s.calls.length = specs.length → (∀ c ∈ s.calls, c.isActive = false) →
      (List.range specs.length).map s.reply? = replies

theorem complete_of_create (hcreate : (create loader files settings).result = .ok s)
    (hbatches : ∀ spec ∈ specs, spec.isDocument = false)
    (hmodel : ∀ b o, s.model b o ≠ .panicked .lethal) :
    Complete specs s (specs.map (CallSpec.alone? s.model)) := by
  have hstart : Reachable loader files settings (Together specs) s := .start hcreate
  refine ⟨⟨s.toDo specs, fun _ _ => hstart.length_le_toDo hbatches⟩, ?_, ?_, ?_⟩
  · intro actions t hleads
    have ht := hstart.leads hleads
    by_cases hended : ∃ how, t.handle = .ended how
    · exact .inl hended
    · rw [not_exists] at hended
      refine .inr (ht.exists_step hbatches ?_ hended)
      rw [ht.model_eq hcreate]
      exact hmodel
  · intro actions t hleads how hended
    have ht := hstart.leads hleads
    have hhandle : t.handle ≠ .serving := by
      rw [hended]
      exact Handle.noConfusion
    exact ⟨(ht.joint hbatches).made hhandle, ht.held.idle hhandle⟩
  · intro actions t hleads hmade hidle
    have ht := hstart.leads hleads
    rw [← ht.model_eq hcreate]
    exact ht.replies_eq hbatches hmade hidle

end DecodingDesk.Service
