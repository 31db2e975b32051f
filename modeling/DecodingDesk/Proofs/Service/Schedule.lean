import DecodingDesk.Proofs.Service.Completion
/-!
# Calls that a service answers by itself

A service that runs by itself takes only steps that can happen when calls are made together,
and it stops where nothing but the owner can act.  Its bound on the number of steps is more
than there is to do, so when it stops all calls have returned.
-/

namespace DecodingDesk.Service

variable {loader : Model.Loader} {files : Files} {settings : Settings} {size : Nat}
  {s s' : Service} {a : Action} {specs : List CallSpec} {held : Job → Bool}

/-! ## What the next step is -/

/-- What is tried next is something that can happen when calls are made together, and makes no
call. -/
theorem together_of_mem_candidates (h : a ∈ candidates held s) :
    Together specs s a ∧ ∀ spec, a ≠ .call spec := by
  simp only [candidates, List.mem_append, Option.mem_toList, List.mem_singleton,
    List.mem_map] at h
  rcases h with (((h | rfl) | ⟨i, -, rfl⟩) | ⟨j, -, rfl⟩) | rfl
  · obtain ⟨act, hnext, hof⟩ := Option.bind_eq_some_iff.mp h
    refine ⟨.of_pool? (pool?_of_ofPoolAction hof) (Pool.follows_of_nextAction? hnext), ?_⟩
    rintro spec rfl
    cases pool?_of_ofPoolAction hof
  all_goals exact ⟨trivial, fun _ => Action.noConfusion⟩

/-- When nothing is left to try and no call is held up, nobody can act in an open pool. -/
theorem isIdle_of_advance? (hphase : s.pool.phase ≠ .closed)
    (h : advance? (fun _ => false) s = none) : s.pool.IsIdle := by
  cases hnext : Pool.nextAction? s.model (fun _ => false) s.pool with
  | none => exact Pool.isIdle_of_nextAction? hnext
  | some act =>
    obtain ⟨hactor, pool, hpool⟩ := Pool.step_of_nextAction? hphase hnext
    obtain ⟨a, hof⟩ := exists_ofPoolAction hactor
    have hmem : a ∈ candidates (fun _ => false) s := by simp [candidates, hnext, hof]
    have hnone := List.findSome?_eq_none_iff.mp h a hmem
    rw [step?_of_pool (pool?_of_ofPoolAction hof) hpool] at hnone
    cases hnone

theorem mem_waitingCalls {i : Nat} {c : Call} (hcall : s.calls[i]? = some c)
    (hactive : c.isActive = true) (hcreated : c.stage ≠ .created) : i ∈ s.waitingCalls := by
  refine List.mem_filterMap.mpr ⟨(c, i), List.mem_zipIdx_iff_getElem?.mpr hcall, ?_⟩
  unfold Call.isActive at hactive
  cases hstage : c.stage <;> simp_all

/-! ## Calls that have been looked at -/

/-- Every call has been made and looked at. -/
structure Begun (specs : List CallSpec) (s : Service) : Prop where
  length_calls : s.calls.length = specs.length
  ne_created : ∀ c ∈ s.calls, c.stage ≠ .created

/-- A call that nobody has looked at is new, or nobody has looked at it now either. -/
theorem Step.call_of_created (hstep : Step s a s') {k : Nat} {c : Call}
    (hcall : s'.calls[k]? = some c) (hcreated : c.stage = .created) :
    (∃ spec, a = .call spec) ∨ s.calls[k]? = some c ∧ a ≠ .poll k := by
  have hset : ∀ {i : Nat} {x : Call} {stage : CallStage}, s.calls[i]? = some x →
      stage ≠ .created → (s.setCall i stage).calls[k]? = some c → i ≠ k ∧ s.calls[k]? = some c := by
    intro i x stage hx hstage hk
    rw [getElem?_setCall hx] at hk
    split at hk
    · cases hk
      exact absurd hcreated hstage
    · exact ⟨‹_›, hk⟩
  cases hstep with
  | call spec _ => exact .inl ⟨spec, rfl⟩
  | refuse hx | post hx | begin hx | enter hx | collect hx | join hx =>
    obtain ⟨hne, hk⟩ := hset hx CallStage.noConfusion hcall
    exact .inr ⟨hk, fun heq => hne (Action.poll.inj heq)⟩
  | giveUp hx | forget hx =>
    exact .inr ⟨(hset hx CallStage.noConfusion hcall).2, Action.noConfusion⟩
  | @worker act _ _ hact =>
    refine .inr ⟨hcall, ?_⟩
    rintro rfl
    cases hact
  | _ => exact .inr ⟨hcall, Action.noConfusion⟩

theorem Step.length_calls_le (hstep : Step s a s') : s.calls.length ≤ s'.calls.length := by
  by_contra hlt
  have hk : s'.calls.length < s.calls.length := Nat.lt_of_not_le hlt
  obtain ⟨x, hx, -⟩ := hstep.exists_call (List.getElem?_eq_getElem hk)
  exact Nat.lt_irrefl _ (List.getElem?_eq_some_iff.mp hx).1

theorem Begun.step (h : Begun specs s) (hcall : ∀ spec, a ≠ .call spec) (hstep : Step s a s')
    (hjoint : Joint specs s') : Begun specs s' where
  length_calls := by
    have hle := hstep.length_calls_le
    have hge := hjoint.length_calls_le
    rw [h.length_calls] at hle
    exact Nat.le_antisymm hge hle
  ne_created c hc hcreated := by
    obtain ⟨k, hk⟩ := List.mem_iff_getElem?.mp hc
    rcases hstep.call_of_created hk hcreated with ⟨spec, rfl⟩ | ⟨hk, -⟩
    · exact hcall spec rfl
    · exact h.ne_created c (List.mem_of_getElem? hk) hcreated

/-- When nothing is left to try, calls that have been looked at have returned. -/
theorem Reachable.idle_of_advance? (h : Reachable loader files settings Follows s)
    (hjoint : Joint specs s) (hbegun : Begun specs s)
    (hmodel : ∀ b o, s.model b o ≠ .panicked .lethal)
    (hnone : advance? (fun _ => false) s = none) : ∀ c ∈ s.calls, c.isActive = false := by
  intro c hc
  obtain ⟨i, hcall⟩ := List.mem_iff_getElem?.mp hc
  by_contra hactive
  rw [Bool.not_eq_false] at hactive
  have hphase : s.pool.phase ≠ .closed := by
    rw [h.held.phase_of_call hcall hactive]
    exact Pool.Phase.noConfusion
  obtain ⟨s', hs'⟩ := h.exists_poll hmodel (isIdle_of_advance? hphase hnone) hcall
    (hjoint.batches _ (hjoint.spec_mem hcall)) hactive
  have hmem : .poll i ∈ candidates (fun _ => false) s := by
    have hwaiting := mem_waitingCalls hcall hactive (hbegun.ne_created c hc)
    simp [candidates, hwaiting]
  have hstuck := List.findSome?_eq_none_iff.mp hnone _ hmem
  rw [hs'] at hstuck
  cases hstuck

/-! ## Steps until nothing is left -/

theorem exists_of_advance? (h : advance? held s = some s') :
    ∃ a ∈ candidates held s, s.step? a = some s' :=
  List.exists_of_findSome?_eq_some h

/-- A service that may take as many steps as there are to do stops only where there is none. -/
theorem Reachable.advance (h : Reachable loader files settings (Together specs) s)
    (hbatches : ∀ spec ∈ specs, spec.isDocument = false) (hbegun : Begun specs s) {n : Nat}
    (hn : s.toDo specs ≤ n) :
    Reachable loader files settings (Together specs) (s.advance held n) ∧
      Begun specs (s.advance held n) ∧ advance? held (s.advance held n) = none := by
  induction n generalizing s with
  | zero =>
    refine ⟨h, hbegun, ?_⟩
    cases hnext : advance? held s with
    | none => exact hnext
    | some s' =>
      obtain ⟨a, hmem, hstep⟩ := exists_of_advance? hnext
      have hless := h.toDo_lt hbatches (together_of_mem_candidates hmem).1 hstep
      omega
  | succ n ih =>
    rw [Service.advance]
    cases hnext : advance? held s with
    | none => exact ⟨h, hbegun, hnext⟩
    | some s' =>
      obtain ⟨a, hmem, hstep⟩ := exists_of_advance? hnext
      obtain ⟨hallowed, hcall⟩ : Together specs s a ∧ ∀ spec, a ≠ .call spec :=
        together_of_mem_candidates hmem
      have hless := h.toDo_lt hbatches hallowed hstep
      have hnew := h.step a hallowed hstep
      exact ih hnew (hbegun.step hcall (step_of_step? hstep) (hnew.joint hbatches)) (by omega)

/-! ## From the first call to the last answer -/

theorem Reachable.act (h : Reachable loader files settings (Together specs) s)
    (hallowed : Together specs s a) :
    Reachable loader files settings (Together specs) (s.act a) := by
  unfold Service.act
  cases hstep : s.step? a with
  | none => exact h
  | some s' => exact h.step a hallowed hstep

theorem act_call (hserving : s.handle = .serving) (spec : CallSpec) :
    s.act (.call spec) = { s with calls := s.calls ++ [{ spec }] } := by
  simp [Service.act, step?, hserving]

/-- The calls that are still to be made are made in their turn. -/
theorem Reachable.callAll (h : Reachable loader files settings (Together specs) s)
    (hserving : s.handle = .serving) {rest : List CallSpec}
    (hrest : s.calls.map Call.spec ++ rest = specs) :
    Reachable loader files settings (Together specs)
        (rest.foldl (fun s spec => s.act (.call spec)) s) ∧
      (rest.foldl (fun s spec => s.act (.call spec)) s).calls.length = specs.length := by
  induction rest generalizing s with
  | nil => exact ⟨h, by rw [List.foldl_nil, ← hrest, List.append_nil, List.length_map]⟩
  | cons spec rest ih =>
    have hallowed : Together specs s (.call spec) := by
      show specs[s.calls.length]? = some spec
      rw [← hrest, List.getElem?_append_right (by rw [List.length_map]), List.length_map,
        Nat.sub_self]
      rfl
    have hmade := act_call hserving spec
    have hturn : (s.act (.call spec)).calls.map Call.spec ++ rest = specs := by
      rw [hmade, ← hrest]
      simp
    have hserving' : (s.act (.call spec)).handle = .serving := by
      rw [hmade]
      exact hserving
    exact ih (h.act hallowed) hserving' hturn

/-- Looking at a call leaves it looked at, and no other call as new as it was not. -/
theorem created_of_act_poll {i k : Nat} {c : Call} (hcall : (s.act (.poll i)).calls[k]? = some c)
    (hcreated : c.stage = .created) : k ≠ i ∧ s.calls[k]? = some c := by
  unfold Service.act at hcall
  cases hstep : s.step? (.poll i) with
  | none =>
    rw [hstep, Option.getD_none] at hcall
    refine ⟨?_, hcall⟩
    rintro rfl
    obtain ⟨s', hs'⟩ := exists_step?_of_created hcall hcreated
    rw [hstep] at hs'
    cases hs'
  | some s' =>
    rw [hstep] at hcall
    rcases (step_of_step? hstep).call_of_created hcall hcreated with ⟨spec, hspec⟩ | ⟨hk, hne⟩
    · cases hspec
    · exact ⟨fun heq => hne (by rw [heq]), hk⟩

theorem length_calls_act_le (s : Service) (a : Action) :
    s.calls.length ≤ (s.act a).calls.length := by
  unfold Service.act
  cases hstep : s.step? a with
  | none => exact Nat.le_refl _
  | some s' => exact (step_of_step? hstep).length_calls_le

/-- Calls are looked at in turn, and then nobody has still to be looked at for the first time. -/
theorem Reachable.pollAll (h : Reachable loader files settings (Together specs) s)
    (hbatches : ∀ spec ∈ specs, spec.isDocument = false)
    (hmade : specs.length ≤ s.calls.length) {numbers : List Nat}
    (hnew : ∀ k c, s.calls[k]? = some c → c.stage = .created → k ∈ numbers) :
    Reachable loader files settings (Together specs)
        (numbers.foldl (fun s i => s.act (.poll i)) s) ∧
      Begun specs (numbers.foldl (fun s i => s.act (.poll i)) s) := by
  induction numbers generalizing s with
  | nil =>
    refine ⟨h, Nat.le_antisymm (h.joint hbatches).length_calls_le hmade, ?_⟩
    intro c hc hcreated
    obtain ⟨k, hk⟩ := List.mem_iff_getElem?.mp hc
    cases hnew k c hk hcreated
  | cons i numbers ih =>
    have hlength := length_calls_act_le s (.poll i)
    refine ih (h.act trivial) (Nat.le_trans hmade hlength) fun k c hk hcreated => ?_
    obtain ⟨hne, hbefore⟩ := created_of_act_poll hk hcreated
    exact (List.mem_cons.mp (hnew k c hbefore hcreated)).resolve_left hne

theorem Reachable.begin (h : Reachable loader files settings (Together specs) s)
    (hbatches : ∀ spec ∈ specs, spec.isDocument = false) (hserving : s.handle = .serving)
    (hcalls : s.calls = []) :
    Reachable loader files settings (Together specs) (s.begin specs) ∧
      Begun specs (s.begin specs) := by
  have hrest : s.calls.map Call.spec ++ specs = specs := by
    rw [hcalls]
    rfl
  obtain ⟨hreach, hlength⟩ := h.callAll hserving hrest
  refine hreach.pollAll hbatches (Nat.le_of_eq hlength.symm) fun k c hk _ => ?_
  have hlt := (List.getElem?_eq_some_iff.mp hk).1
  rw [nextCalls, hcalls, List.mem_range'_1]
  simp only [List.length_nil]
  omega

/-! ## The bound on the steps -/

theorem callsWork_le {cs : List Call} (hcreated : ∀ c ∈ cs, c.stage ≠ .created) :
    callsWork cs ≤ 2 * cs.length := by
  induction cs with
  | nil => exact Nat.le_refl _
  | cons c cs ih =>
    have hrest := ih fun x hx => hcreated x (List.mem_cons_of_mem c hx)
    have hfirst : c.stage.work ≤ 2 := by
      have hne := hcreated c List.mem_cons_self
      cases hstage : c.stage <;> simp_all [CallStage.work]
    rw [callsWork, List.foldr_cons, List.length_cons]
    change callsWork cs ≤ _ at hrest
    change c.stage.work + callsWork cs ≤ _
    omega

theorem Handle.work_le (size : Nat) (waiters : List Waiter) (handle : Handle) :
    handle.work size waiters ≤ size + 7 := by
  have hwaiter : ∀ w : Option Waiter, w.elim 0 Waiter.work ≤ 2 := by
    rintro (_ | w)
    · exact Nat.zero_le _
    · cases w <;> simp [Waiter.work]
  cases handle with
  | draining w =>
    have := hwaiter waiters[w]?
    simp only [Handle.work]
    omega
  | serving | releasing | closing | ended =>
    simp only [Handle.work]
    omega

theorem Begun.toDo_le_work (h : Begun specs s) : s.toDo specs ≤ s.work := by
  have hcalls := callsWork_le h.ne_created
  have hhandle := Handle.work_le s.pool.size s.gate.waiters s.handle
  have hmade := h.length_calls
  simp only [toDo, work]
  omega

/-- What is left when a service has settled are steps of callers and the owner. -/
theorem Reachable.settle (h : Reachable loader files settings (Together specs) s)
    (hbatches : ∀ spec ∈ specs, spec.isDocument = false) (hbegun : Begun specs s)
    (held : Job → Bool) :
    Reachable loader files settings (Together specs) (s.settle held) ∧
      Begun specs (s.settle held) ∧ advance? held (s.settle held) = none :=
  h.advance hbatches hbegun hbegun.toDo_le_work

/-- A new service that answers calls for batches by itself answers each as if it were alone. -/
theorem answerAll_eq (hcreate : (create loader files settings).result = .ok s)
    (hbatches : ∀ spec ∈ specs, spec.isDocument = false)
    (hmodel : ∀ b o, s.model b o ≠ .panicked .lethal) :
    (s.answerAll specs).2 = specs.map (CallSpec.alone? s.model) := by
  obtain ⟨-, -, hcalls, -, hserving, -⟩ := create_spec hcreate
  have hstart : Reachable loader files settings (Together specs) s := .start hcreate
  obtain ⟨hreach, hbegun⟩ := hstart.begin hbatches hserving hcalls
  obtain ⟨hdone, hbegun, hnone⟩ := hreach.settle hbatches hbegun fun _ => false
  have hmodel_eq := hdone.model_eq hcreate
  have hidle := hdone.follows.idle_of_advance? (hdone.joint hbatches) hbegun
    (by rw [hmodel_eq]; exact hmodel) hnone
  have hreplies := hdone.replies_eq hbatches hbegun.length_calls hidle
  rw [hmodel_eq, List.range_eq_range'] at hreplies
  rw [← hreplies, answerAll, nextCalls, hcalls]
  rfl

end DecodingDesk.Service
