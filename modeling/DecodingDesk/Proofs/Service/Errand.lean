import DecodingDesk.Proofs.Service.Run
/-!
# A call among others

From the moment at which a call is made it moves and its task moves, and in between everybody
else does.  Others neither touch the stage of the call, unless they give it up, nor its task.
-/

namespace DecodingDesk.Service

variable {s s' : Service} {a : Action} {i j : Nat}

/-! ## Others' steps -/

/-- What becomes of a call that nobody looks at: it stays as it is, or it is given up. -/
theorem Step.call_of_ne_poll (hstep : Step s a s') (hpoll : a ≠ .poll i) {c : Call}
    (hcall : s.calls[i]? = some c) :
    s'.calls[i]? = some c ∨
      c.isActive = true ∧ s'.calls[i]? = some { c with stage := .abandoned } := by
  have hset : ∀ {k : Nat} {x : Call} (stage : CallStage), s.calls[k]? = some x → k ≠ i →
      (s.setCall k stage).calls[i]? = some c := by
    intro k x stage hx hne
    rw [getElem?_setCall hx, if_neg hne]
    exact hcall
  have hne : ∀ {k : Nat}, a = .poll k → k ≠ i := by
    rintro k rfl rfl
    exact hpoll rfl
  cases hstep with
  | call spec _ =>
    exact .inl (List.getElem?_append_left (List.getElem?_eq_some_iff.mp hcall).1 ▸ hcall)
  | refuse hx | post hx | begin hx | enter hx | collect hx | join hx =>
    exact .inl (hset _ hx (hne rfl))
  | @giveUp k spec stage hx hstage =>
    by_cases hk : k = i
    · subst hk
      rw [hcall] at hx
      cases hx
      refine .inr ⟨by rcases hstage with rfl | ⟨j, rfl⟩ <;> rfl, ?_⟩
      rw [getElem?_setCall hcall, if_pos rfl]
    · exact .inl (hset _ hx hk)
  | @forget k job spec pool hx _ =>
    by_cases hk : k = i
    · subst hk
      rw [hcall] at hx
      cases hx
      exact .inr ⟨rfl, (getElem?_setCall hcall .abandoned k).trans (if_pos rfl)⟩
    · exact .inl (hset _ hx hk)
  | _ => exact .inl hcall

/-- Only its own work changes a task. -/
theorem Step.task_of_ne_work (hstep : Step s a s') (hwork : a ≠ .work j) {t : TaskStage}
    (htask : s.tasks[j]? = some t) : s'.tasks[j]? = some t := by
  have hset : ∀ {k : Nat} (stage : TaskStage), a = .work k →
      (s.setTask k stage).tasks[j]? = some t := by
    rintro k stage rfl
    have hne : k ≠ j := by
      rintro rfl
      exact hwork rfl
    rw [setTask, List.getElem?_set_ne hne]
    exact htask
  cases hstep with
  | begin =>
    exact (List.getElem?_append_left (List.getElem?_eq_some_iff.mp htask).1).trans htask
  | work | letGo | taskClose | taskWait | taskLeave => exact hset _ rfl
  | _ => exact htask

/-- What looking at a call needs. -/
inductive Looked (s : Service) : CallStage → Prop where
  | created : Looked s .created
  | entering (job : Nat) : Looked s (.entering job)
  | waiting (job : Nat) : Looked s (.waiting job)
  | blocked {j : Nat} {r : Except Failure Nat} (htask : s.tasks[j]? = some (.ended r)) :
      Looked s (.blocked j)

theorem Step.of_poll (hstep : Step s (.poll i) s') {c : Call} (hcall : s.calls[i]? = some c) :
    Looked s c.stage := by
  cases hstep with
  | refuse hx | post hx | begin hx | enter hx | collect hx =>
    rw [hcall] at hx
    cases hx
    constructor
  | join hx htask =>
    rw [hcall] at hx
    cases hx
    exact .blocked htask
  | worker hact => cases hact

/-- A task that is over does nothing more. -/
theorem Step.ne_ended (hstep : Step s (.work j) s') (r : Except Failure Nat) :
    s.tasks[j]? ≠ some (.ended r) := by
  intro hended
  cases hstep with
  | work hx | letGo hx | taskClose hx | taskWait hx | taskLeave hx =>
    rw [hended] at hx
    cases hx
  | worker hact => cases hact

/-! ## Moves -/

/-- A move of a call or its task: the service before and after it. -/
structure Move where
  before : Service
  after : Service

namespace Move

/-- Whether nothing is posted or taken from the queue, no call of the model begins, and no file
is touched. -/
structure IsIdle (m : Move) : Prop where
  posted : m.after.pool.posted = m.before.pool.posted
  queue : m.after.pool.queue = m.before.pool.queue
  called : m.after.pool.called = m.before.pool.called
  files : m.after.files = m.before.files

/-- What a move adds to the counter of the gate. -/
def added (m : Move) : ℤ :=
  m.after.gate.inFlight - m.before.gate.inFlight

/-- What moves add together. -/
def total : List Move → ℤ
  | [] => 0
  | m :: rest => m.added + total rest

theorem total_concat (moves : List Move) (m : Move) :
    total (moves ++ [m]) = total moves + m.added := by
  induction moves with
  | nil => exact Int.add_comm _ _
  | cons first rest ih =>
    rw [List.cons_append, total, total, ih, Int.add_assoc]

theorem added_of_gate {m : Move} (hgate : m.after.gate = m.before.gate) : m.added = 0 := by
  rw [added, hgate, Int.sub_self]

end Move

/-- The task for which a call waits. -/
def taskOf? (s : Service) (i : Nat) : Option Nat :=
  s.calls[i]?.bind fun c =>
    match c.stage with
    | .blocked j => some j
    | _ => none

theorem taskOf?_eq {c : Call} (hcall : s.calls[i]? = some c) :
    s.taskOf? i = match c.stage with
      | .blocked j => some j
      | _ => none := by
  rw [taskOf?, hcall]
  rfl

/-- Whether an action is one of a call, or of its task if it has one. -/
def Action.IsOwn (i : Nat) (task? : Option Nat) (a : Action) : Prop :=
  a = .poll i ∨ ∃ j, task? = some j ∧ a = .work j

/-- The course of a call that has been made: its task, if it has begun one, and its moves, among
everything that happens in the service. -/
inductive Errand (Allows : Service → Action → Prop) (start : Service) (i : Nat) :
    Option Nat → List Move → Service → Prop where
  | start : Errand Allows start i none [] start
  | own {task? : Option Nat} {moves : List Move} {s s' : Service} {a : Action}
      (h : Errand Allows start i task? moves s) (hown : a.IsOwn i task?) (hallows : Allows s a)
      (hstep : s.step? a = some s') :
      Errand Allows start i (task?.or (s'.taskOf? i)) (moves ++ [⟨s, s'⟩]) s'
  | other {task? : Option Nat} {moves : List Move} {s s' : Service} {a : Action}
      (h : Errand Allows start i task? moves s) (hother : ¬ a.IsOwn i task?)
      (hallows : Allows s a) (hstep : s.step? a = some s') : Errand Allows start i task? moves s'

theorem Errand.reachable {loader : Model.Loader} {files : Files} {settings : Settings}
    {Allows : Service → Action → Prop} {start : Service} {task? : Option Nat} {moves : List Move}
    (h : Errand Allows start i task? moves s)
    (hstart : Reachable loader files settings Allows start) :
    Reachable loader files settings Allows s := by
  induction h with
  | start => exact hstart
  | own _ _ hallows hstep ih | other _ _ hallows hstep ih => exact ih.step _ hallows hstep

/-! ## Moves that do little -/

theorem isIdle_setCall (s : Service) (i : Nat) (stage : CallStage) :
    Move.IsIdle ⟨s, s.setCall i stage⟩ :=
  ⟨rfl, rfl, rfl, rfl⟩

/-- Ending a pool takes no job from it. -/
theorem isIdle_of_closing {pool : Pool} {act : Pool.Action}
    (hact : act = .close ∨ act = .wakeAll ∨ act = .join) (hpool : Pool.Step s.pool act pool)
    (j : Nat) (stage : TaskStage) : Move.IsIdle ⟨s, { s with pool }.setTask j stage⟩ := by
  rcases hact with rfl | rfl | rfl <;> cases hpool <;> exact ⟨rfl, rfl, rfl, rfl⟩

end DecodingDesk.Service
