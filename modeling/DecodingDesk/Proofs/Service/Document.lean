import DecodingDesk.Proofs.Document.Course
import DecodingDesk.Proofs.Service.Run
/-!
# The call for a document

When only one call of a service is for a document, its task is the only one, and nobody
else touches the files.  What other calls and the workers do to the pool is what can happen
around any task that shares its pool, so the task takes the course of the document, and
the call returns its result.
-/

namespace DecodingDesk.Service

open Document (Course Scene Shared)

variable {size : Nat} {s s' : Service} {a : Action} {c : Scene} {i : Nat}

/-! ## The only call for a document -/

/-- The call for the document of a scene. -/
def callFor (c : Scene) : CallSpec :=
  .document c.request.input c.request.output c.request.batchSize c.request.options.params

/-- A call is for the document of a scene, if it has been made, and no other call is for a
document. -/
structure Sole (c : Scene) (i : Nat) (s : Service) : Prop where
  spec : ∀ x, s.calls[i]? = some x → x.spec = callFor c
  other : s.OnlyDocument i

theorem Sole.of_step (h : Sole c i s') (hstep : Step s a s') : Sole c i s where
  spec x hx := by
    obtain ⟨x', hx', hspec⟩ := hstep.exists_call hx
    rw [← hspec]
    exact h.spec x' hx'
  other k x hx hdocument := by
    obtain ⟨x', hx', hspec⟩ := hstep.exists_call hx
    exact h.other k x' hx' (hspec ▸ hdocument)

/-! ## The task -/

namespace TaskStage

def result? : TaskStage → Option (Except Failure Nat)
  | working _ => none
  | releasing r | closing r | leaving r | ended r => some r

end TaskStage

/-- How far the task of a document is. -/
inductive Attains (c : Scene) (p : Pool) (fs : Files) : TaskStage → Prop where
  | working {task : Document.Task} (h : Course c task p fs) (hresult : task.result? = none) :
      Attains c p fs (.working task)
  | settled {task : Document.Task} {t : TaskStage} {r : Except Failure Nat} (h : Course c task p fs)
      (hresult : task.result? = some r) (ht : t.result? = some r) : Attains c p fs t

theorem Attains.of_posted {p p' : Pool} {fs : Files} {t : TaskStage} (h : Attains c p fs t)
    (hposted : ∀ job ∈ p.posted, job ∈ p'.posted) : Attains c p' fs t := by
  cases h with
  | working h hresult => exact .working (h.of_posted hposted) hresult
  | settled h hresult ht => exact .settled (h.of_posted hposted) hresult ht

theorem Attains.of_result {p : Pool} {fs : Files} {t t' : TaskStage} (h : Attains c p fs t)
    {r : Except Failure Nat} (ht : t.result? = some r) (ht' : t'.result? = some r) :
    Attains c p fs t' := by
  cases h with
  | working => cases ht
  | settled h hresult hover =>
    rw [ht] at hover
    cases hover
    exact .settled h hresult ht'

theorem attains_ofTask {p : Pool} {fs : Files} {task : Document.Task} (h : Course c task p fs) :
    Attains c p fs (.ofTask task) := by
  unfold TaskStage.ofTask
  split
  · exact .settled h ‹_› rfl
  · exact .working h ‹_›

/-- A task that is over has done what the document in one go does. -/
theorem Attains.result_eq {p : Pool} {fs : Files} {t : TaskStage} (h : Attains c p fs t)
    {r : Except Failure Nat} (ht : t.result? = some r) :
    r = (Document.sequential c.model c.request c.size c.content).1.mapError .error ∧
      fs.received c.handle.place = c.opened.received c.handle.place ++
        (Document.sequential c.model c.request c.size c.content).2 := by
  cases h with
  | working => cases ht
  | settled h hresult hover =>
    rw [ht] at hover
    cases hover
    exact h.of_result hresult

/-! ## The call and its task -/

/-- How the call for the document stands to the tasks of the service. -/
inductive Dispatched (c : Scene) (p : Pool) (fs : Files) :
    Option CallStage → List TaskStage → Prop where
  | missing (hfiles : fs = c.files) : Dispatched c p fs none []
  | created (hfiles : fs = c.files) : Dispatched c p fs (some .created) []
  | forsaken (hfiles : fs = c.files) : Dispatched c p fs (some .abandoned) []
  | blocked {t : TaskStage} (h : Attains c p fs t) : Dispatched c p fs (some (.blocked 0)) [t]
  | abandoned {t : TaskStage} (h : Attains c p fs t) : Dispatched c p fs (some .abandoned) [t]
  | returned {r : Except Failure Nat} (h : Attains c p fs (.ended r)) :
      Dispatched c p fs (some (.returned (taskReply r))) [.ended r]

def stage? (s : Service) (i : Nat) : Option CallStage :=
  s.calls[i]?.map Call.stage

theorem stage?_of_getElem? {x : Call} (hx : s.calls[i]? = some x) : s.stage? i = some x.stage := by
  rw [stage?, hx]
  rfl

theorem stage?_append (spec : CallSpec) (i : Nat) :
    stage? { s with calls := s.calls ++ [{ spec }] } i =
      if i = s.calls.length then some .created else s.stage? i := by
  unfold stage?
  rcases Nat.lt_trichotomy i s.calls.length with hlt | rfl | hgt
  · rw [List.getElem?_append_left hlt, if_neg (Nat.ne_of_lt hlt)]
  · rw [List.getElem?_concat_length, if_pos rfl]
    rfl
  · rw [if_neg (Nat.ne_of_gt hgt), List.getElem?_eq_none (Nat.le_of_lt hgt),
      List.getElem?_eq_none (by rw [List.length_append]; exact hgt)]

theorem stage?_setCall_self {x : Call} (hx : s.calls[i]? = some x) (stage : CallStage) :
    (s.setCall i stage).stage? i = some stage := by
  rw [stage?, getElem?_setCall hx, if_pos rfl]
  rfl

theorem stage?_setCall_ne {k : Nat} {x : Call} (hx : s.calls[k]? = some x) (hne : k ≠ i)
    (stage : CallStage) : (s.setCall k stage).stage? i = s.stage? i := by
  rw [stage?, getElem?_setCall hx, if_neg hne]
  rfl

theorem Dispatched.of_posted {p p' : Pool} {fs : Files} {stage? : Option CallStage}
    {tasks : List TaskStage} (h : Dispatched c p fs stage? tasks)
    (hposted : ∀ job ∈ p.posted, job ∈ p'.posted) : Dispatched c p' fs stage? tasks := by
  cases h with
  | missing hfiles => exact .missing hfiles
  | created hfiles => exact .created hfiles
  | forsaken hfiles => exact .forsaken hfiles
  | blocked h => exact .blocked (h.of_posted hposted)
  | abandoned h => exact .abandoned (h.of_posted hposted)
  | returned h => exact .returned (h.of_posted hposted)

/-- A step of the task. -/
theorem Dispatched.of_task {p p' : Pool} {fs fs' : Files} {stage? : Option CallStage}
    {tasks : List TaskStage} (h : Dispatched c p fs stage? tasks) {j : Nat} {t t' : TaskStage}
    (ht : tasks[j]? = some t) (hopen : ∀ r, t ≠ .ended r)
    (hnext : Attains c p fs t → Attains c p' fs' t') :
    Dispatched c p' fs' stage? (tasks.set j t') := by
  have hzero : ∀ {u : TaskStage}, [u][j]? = some t → j = 0 ∧ u = t := by
    intro u hu
    cases j with
    | zero => exact ⟨rfl, Option.some.inj hu⟩
    | succ j => cases hu
  cases h with
  | missing | created | forsaken => cases ht
  | blocked h =>
    obtain ⟨rfl, rfl⟩ := hzero ht
    exact .blocked (hnext h)
  | abandoned h =>
    obtain ⟨rfl, rfl⟩ := hzero ht
    exact .abandoned (hnext h)
  | returned h =>
    obtain ⟨rfl, rfl⟩ := hzero ht
    exact absurd rfl (hopen _)

theorem immediate?_callFor (c : Scene) : (callFor c).immediate? = none := by
  simp only [callFor, CallSpec.immediate?, Options.validate_params, c.batchSize_ne_zero, if_false]

theorem request_eq {input output : String} {batchSize : Nat} {params : DecodingParams}
    {options : Options} (hspec : .document input output batchSize params = callFor c)
    (hvalid : Options.validate params = .ok options)
    (hscores : c.request.withScores = c.request.options.params.withScores) :
    { input, output, batchSize, options, withScores := params.withScores } = c.request := by
  cases hspec
  rw [Options.validate_params] at hvalid
  cases hvalid
  rw [← hscores]

theorem Dispatched.call (h : Dispatched c s.pool s.files none s.tasks) :
    Dispatched c s.pool s.files (some .created) s.tasks := by
  generalize s.tasks = tasks at h ⊢
  cases h with
  | missing hfiles => exact .created hfiles

theorem Dispatched.begin (h : Dispatched c s.pool s.files (s.stage? i) s.tasks)
    (hstage : s.stage? i = some .created) :
    Dispatched c s.pool s.files (some (.blocked s.tasks.length))
      (s.tasks ++ [.working { request := c.request }]) := by
  rw [hstage] at h
  generalize s.tasks = tasks at h ⊢
  cases h with
  | created hfiles =>
    rw [hfiles]
    exact .blocked (.working .opening rfl)

theorem Dispatched.join (h : Dispatched c s.pool s.files (s.stage? i) s.tasks) {j : Nat}
    {r : Except Failure Nat} (hstage : s.stage? i = some (.blocked j))
    (htask : s.tasks[j]? = some (.ended r)) :
    Dispatched c s.pool s.files (some (.returned (taskReply r))) s.tasks := by
  rw [hstage] at h
  generalize s.tasks = tasks at h htask ⊢
  cases h with
  | blocked h =>
    cases htask
    exact .returned h

theorem Dispatched.giveUp (h : Dispatched c s.pool s.files (s.stage? i) s.tasks)
    {stage : CallStage} (hstage : s.stage? i = some stage)
    (hactive : stage = .created ∨ ∃ j, stage = .blocked j) :
    Dispatched c s.pool s.files (some .abandoned) s.tasks := by
  rw [hstage] at h
  generalize s.tasks = tasks at h ⊢
  cases h with
  | created hfiles => exact .forsaken hfiles
  | blocked h => exact .abandoned h
  | forsaken hfiles => exact .forsaken hfiles
  | abandoned h => exact .abandoned h
  | returned => rcases hactive with hactive | ⟨j, hactive⟩ <;> cases hactive

/-- A call that is about to enter the gate or waits inside it is another one. -/
theorem Dispatched.ne_of_entering {p : Pool} {fs : Files} {tasks : List TaskStage} {k : Nat}
    {spec : CallSpec} {stage : CallStage} (h : Dispatched c p fs (s.stage? i) tasks)
    (hcall : s.calls[k]? = some { spec, stage })
    (hstage : ∃ job, stage = .entering job ∨ stage = .waiting job) : k ≠ i := by
  rintro rfl
  rw [stage?_of_getElem? hcall] at h
  obtain ⟨job, rfl | rfl⟩ := hstage <;> cases h

theorem Dispatched.step (h : Dispatched c s.pool s.files (s.stage? i) s.tasks)
    (hheld : Held c.size s) (hobeys : Pool.Obeys c.model s.pool)
    (hscores : c.request.withScores = c.request.options.params.withScores)
    (hsole : Sole c i s) (hstep : Step s a s') :
    Dispatched c s'.pool s'.files (s'.stage? i) s'.tasks := by
  have hposted : ∀ job ∈ s.pool.posted, job ∈ s'.pool.posted := fun _ => hheld.mem_posted hstep
  have hnext := h.of_posted hposted
  have hother : ∀ {k : Nat} {x : Call} (stage : CallStage), s.calls[k]? = some x → k ≠ i →
      Dispatched c s'.pool s.files ((s.setCall k stage).stage? i) s.tasks := by
    intro k x stage hx hne
    rw [stage?_setCall_ne hx hne]
    exact hnext
  have hself : ∀ {x : Call} {stage : CallStage} {fs : Files} {tasks : List TaskStage},
      s.calls[i]? = some x → Dispatched c s'.pool fs (some stage) tasks →
        Dispatched c s'.pool fs ((s.setCall i stage).stage? i) tasks := by
    intro x stage fs tasks hx h
    rw [stage?_setCall_self hx]
    exact h
  cases hstep with
  | call spec hserving =>
    rw [stage?_append]
    split
    · rename_i hi
      rw [stage?, List.getElem?_eq_none (Nat.le_of_eq hi.symm)] at h
      exact h.call
    · exact hnext
  | @refuse k spec r hcall hr =>
    refine hother _ hcall ?_
    rintro rfl
    rw [show spec = callFor c from hsole.spec _ hcall, immediate?_callFor] at hr
    cases hr
  | @post k tokens params options hcall hvalid hne =>
    refine hother _ hcall ?_
    rintro rfl
    cases hsole.spec _ hcall
  | @begin k input output batchSize params options hcall hvalid hne =>
    obtain rfl : k = i := hsole.other k _ hcall rfl
    rw [request_eq (hsole.spec _ hcall) hvalid hscores]
    exact hself hcall (h.begin (stage?_of_getElem? hcall))
  | enter hcall => exact hother _ hcall (h.ne_of_entering hcall ⟨_, .inl rfl⟩)
  | collect hcall | forget hcall =>
    exact hother _ hcall (h.ne_of_entering hcall ⟨_, .inr rfl⟩)
  | @join k j spec r hcall htask =>
    by_cases hk : k = i
    · subst hk
      exact hself hcall (h.join (stage?_of_getElem? hcall) htask)
    · exact hother _ hcall hk
  | @giveUp k spec stage hcall hactive =>
    by_cases hk : k = i
    · subst hk
      exact hself hcall (h.giveUp (stage?_of_getElem? hcall) hactive)
    · exact hother _ hcall hk
  | work htask hstep =>
    refine h.of_task htask nofun fun hattains => ?_
    have hshared : Shared c.model c.size s.pool :=
      ⟨hheld.pool, hobeys, hheld.serving (owners_pos_of_task htask rfl)⟩
    cases hattains with
    | working hcourse => exact attains_ofTask (hcourse.step hshared hstep).2
    | settled _ _ ht => cases ht
  | letGo htask | taskLeave htask => exact h.of_task htask nofun fun h => h.of_result rfl rfl
  | taskClose htask =>
    exact hnext.of_task htask nofun fun h => h.of_result rfl rfl
  | taskWait htask =>
    refine hnext.of_task htask nofun fun h => h.of_result rfl ?_
    split <;> rfl
  | worker | notifyGate | beginShutdown | beginDrop | drained | waiter | handleClose
  | handleLeave | handleWait => exact hnext

variable {loader : Model.Loader} {settings : Settings}

theorem Reachable.dispatched (h : Reachable loader c.files settings Follows s)
    (hmodel : s.model = c.model) (hsize : settings.poolSize.toNat = c.size)
    (hscores : c.request.withScores = c.request.options.params.withScores) (hsole : Sole c i s) :
    Dispatched c s.pool s.files (s.stage? i) s.tasks := by
  induction h with
  | start hcreate =>
    obtain ⟨-, -, hcalls, htasks, -, -⟩ := create_spec hcreate
    rw [stage?, hcalls, htasks]
    exact .missing (files_of_create hcreate)
  | step a hreach _ hstep ih =>
    have hstep := step_of_step? hstep
    rw [hstep.model_eq] at hmodel
    have hbefore := hsole.of_step hstep
    have hheld : Held c.size _ := hsize ▸ hreach.held
    have hobeys : Pool.Obeys c.model _ := hmodel ▸ hreach.obeys
    exact (ih hmodel hbefore).step hheld hobeys hscores hbefore hstep

end DecodingDesk.Service
