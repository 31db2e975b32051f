import DecodingDesk.Proofs.Document.Step
import DecodingDesk.Proofs.Service.Progress
import DecodingDesk.Proofs.Service.Errand
/-!
# Calls that are turned away

A call is checked before it does anything: its parameters first, and for a document then the
size of its chunks, its input and its output.  The first check that fails decides the reply.
Such a call leaves the queue and the files as they were and the gate as it found it, however
many other calls come between its moves.
-/

namespace DecodingDesk.Service

open Document (Request)

variable {s s' : Service} {a : Action} {spec : CallSpec} {i j : Nat} {moves : List Move}
  {task? : Option Nat}

/-! ## What the checks say -/

inductive Ruling where
  /-- A check decides the reply. -/
  | decided (r : CallReply)
  /-- All checks have passed. -/
  | admitted

/-- What opening the input and creating the output decide, for a call that has passed the checks
before. -/
def CallSpec.openings? : CallSpec → List Move → Option Ruling
  | .batch _ _, _ => some .admitted
  | .document _ _ _ _, [] => none
  | .document input output _ _, opening :: rest =>
    match opening.before.files.openSource input with
    | .error fault => some (.decided (.error (.error (.io input fault))))
    | .ok _ =>
      match rest with
      | [] => none
      | creating :: _ =>
        match creating.before.files.create output with
        | .error fault => some (.decided (.error (.error (.io output fault))))
        | .ok _ => some .admitted

/-- What the checks of a call decide in the course of its moves, as soon as they do. -/
def CallSpec.ruling? (spec : CallSpec) : List Move → Option Ruling
  | [] => none
  | _ :: rest =>
    match spec.immediate? with
    | some r => some (.decided r)
    | none => spec.openings? rest

theorem CallSpec.ruling?_of_immediate? {r : CallReply} (hr : spec.immediate? = some r) (m : Move)
    (rest : List Move) : spec.ruling? (m :: rest) = some (.decided r) := by
  simp only [ruling?, hr]

theorem CallSpec.immediate?_of_admitted (h : spec.ruling? moves = some .admitted) :
    spec.immediate? = none := by
  cases moves with
  | nil => cases h
  | cons looked rest =>
    simp only [ruling?] at h
    split at h
    · cases h
    · assumption

theorem CallSpec.openings?_append {ruling : Ruling} (h : spec.openings? moves = some ruling)
    (more : List Move) : spec.openings? (moves ++ more) = some ruling := by
  cases spec with
  | batch => exact h
  | document input output batchSize params =>
    cases moves with
    | nil => cases h
    | cons opening rest =>
      simp only [List.cons_append, openings?] at h ⊢
      cases hopen : opening.before.files.openSource input with
      | error fault => simpa only [hopen] using h
      | ok source =>
        simp only [hopen] at h ⊢
        cases rest with
        | nil => cases h
        | cons creating rest => exact h

/-- What has been decided stays so. -/
theorem CallSpec.ruling?_append {ruling : Ruling} (h : spec.ruling? moves = some ruling)
    (more : List Move) : spec.ruling? (moves ++ more) = some ruling := by
  cases moves with
  | nil => cases h
  | cons looked rest =>
    simp only [List.cons_append, ruling?] at h ⊢
    cases hr : spec.immediate? with
    | some r => simpa only [hr] using h
    | none =>
      simp only [hr] at h ⊢
      exact openings?_append h more

/-! ## Where a call can be -/

/-- The stage of a call whose task has begun, until it has its result. -/
inductive Waits (j : Nat) : CallStage → Prop where
  | blocked : Waits j (.blocked j)
  | abandoned : Waits j .abandoned

/-- The stage of a call for a batch whose job is posted. -/
inductive Posted : CallStage → Prop where
  | entering (job : Nat) : Posted (.entering job)
  | waiting (job : Nat) : Posted (.waiting job)
  | returned (reply : Pool.Reply) : Posted (.returned (batchReply reply))
  | abandoned : Posted .abandoned

/-- No worker finds fault with parameters. -/
theorem Posted.ne_options {stage : CallStage} (h : Posted stage) (e : OptionsError) :
    stage ≠ .returned (.error (.error (.options e))) := by
  cases h with
  | returned reply =>
    intro h
    injection h with h
    unfold batchReply at h
    repeat' split at h
    all_goals cases h
  | _ => exact nofun

/-- A call whose document is refused by its task, which has made its moves in vain. -/
structure Withdraws (spec : CallSpec) (i j : Nat) (moves : List Move) (e : Error) (t : TaskStage)
    (s : Service) : Prop where
  document : spec.isDocument = true
  ruling : spec.ruling? moves = some (.decided (.error (.error e)))
  idle : ∀ m ∈ moves, m.IsIdle
  task : s.tasks[j]? = some t
  result : t.result? = some (.error (.error e))
  added : Move.total moves = if t.isInside then 1 else 0

/-- Where a call and its task can be. -/
inductive Stands (spec : CallSpec) (i : Nat) : Option Nat → List Move → Service → Prop where
  | unseen {s : Service} {stage : CallStage} (hcall : s.calls[i]? = some { spec, stage })
      (hstage : stage = .created ∨ stage = .abandoned) : Stands spec i none [] s
  | answered {before s : Service} {r : CallReply} (hr : spec.immediate? = some r)
      (hcall : s.calls[i]? = some { spec, stage := .returned r }) :
      Stands spec i none [⟨before, before.setCall i (.returned r)⟩] s
  | posted {s : Service} {moves : List Move} {stage : CallStage} {tokens : Option Batch}
      {params : DecodingParams} (hspec : spec = .batch tokens params)
      (hruling : spec.ruling? moves = some .admitted)
      (hcall : s.calls[i]? = some { spec, stage }) (hstage : Posted stage) :
      Stands spec i none moves s
  | opening {s : Service} {looked : Move} {stage : CallStage} {request : Request} {j : Nat}
      (hr : spec.immediate? = none)
      (hspec : spec = .document request.input request.output request.batchSize
        request.options.params)
      (hlooked : looked.IsIdle) (hadded : Move.total [looked] = 1)
      (htask : s.tasks[j]? = some (.working { request }))
      (hcall : s.calls[i]? = some { spec, stage }) (hstage : Waits j stage) :
      Stands spec i (some j) [looked] s
  | creating {s : Service} {looked opening : Move} {stage : CallStage} {request : Request}
      {j : Nat} {source : Place} (hr : spec.immediate? = none)
      (hspec : spec = .document request.input request.output request.batchSize
        request.options.params)
      (hidle : looked.IsIdle ∧ opening.IsIdle) (hadded : Move.total [looked, opening] = 1)
      (hopen : opening.before.files.openSource request.input = .ok source)
      (htask : s.tasks[j]? = some (.working { request, stage := .creating source }))
      (hcall : s.calls[i]? = some { spec, stage }) (hstage : Waits j stage) :
      Stands spec i (some j) [looked, opening] s
  | admitted {s : Service} {looked opening creating : Move} {rest : List Move}
      {request : Request} {j : Nat} {opened : DecodingDesk.Handle × Files}
      (hspec : spec = .document request.input request.output request.batchSize
        request.options.params)
      (hruling : spec.ruling? (looked :: opening :: creating :: rest) = some .admitted)
      (hidle : looked.IsIdle ∧ opening.IsIdle)
      (hcreate : creating.before.files.create request.output = .ok opened)
      (hopened : creating.after.files = opened.2) :
      Stands spec i (some j) (looked :: opening :: creating :: rest) s
  | withdrawing {s : Service} {moves : List Move} {stage : CallStage} {e : Error}
      {t : TaskStage} {j : Nat} (hcall : s.calls[i]? = some { spec, stage })
      (hstage : Waits j stage) (h : Withdraws spec i j moves e t s)
      (hshort : stage = .blocked j → (∀ r, t ≠ .closing r) ∧ moves.length + t.distance ≤ 6) :
      Stands spec i (some j) moves s
  | withdrawn {s : Service} {moves : List Move} {e : Error} {t : TaskStage} {j : Nat}
      (hcall : s.calls[i]? = some { spec, stage := .returned (.error (.error e)) })
      (h : Withdraws spec i j moves e t s) (hended : ∃ r, t = .ended r) :
      Stands spec i (some j) moves s

/-! ## What others do -/

theorem Withdraws.of_task {e : Error} {t : TaskStage} (h : Withdraws spec i j moves e t s)
    (htask : s'.tasks[j]? = some t) : Withdraws spec i j moves e t s' :=
  { h with task := htask }

theorem Stands.other (h : Stands spec i task? moves s) (hother : ¬ a.IsOwn i task?)
    (hstep : Step s a s') : Stands spec i task? moves s' := by
  have hpoll : a ≠ .poll i := fun hpoll => hother (.inl hpoll)
  have hwork : ∀ {j : Nat}, task? = some j → a ≠ .work j :=
    fun hj hwork => hother (.inr ⟨_, hj, hwork⟩)
  cases h with
  | unseen hcall hstage =>
    rcases hstep.call_of_ne_poll hpoll hcall with hnext | ⟨-, hnext⟩
    · exact .unseen hnext hstage
    · exact .unseen hnext (.inr rfl)
  | answered hr hcall =>
    rcases hstep.call_of_ne_poll hpoll hcall with hnext | ⟨hactive, -⟩
    · exact .answered hr hnext
    · cases hactive
  | posted hspec hruling hcall hstage =>
    rcases hstep.call_of_ne_poll hpoll hcall with hnext | ⟨-, hnext⟩
    · exact .posted hspec hruling hnext hstage
    · exact .posted hspec hruling hnext .abandoned
  | opening hr hspec hlooked hadded htask hcall hstage =>
    have htask := hstep.task_of_ne_work (hwork rfl) htask
    rcases hstep.call_of_ne_poll hpoll hcall with hnext | ⟨-, hnext⟩
    · exact .opening hr hspec hlooked hadded htask hnext hstage
    · exact .opening hr hspec hlooked hadded htask hnext .abandoned
  | creating hr hspec hidle hadded hopen htask hcall hstage =>
    have htask := hstep.task_of_ne_work (hwork rfl) htask
    rcases hstep.call_of_ne_poll hpoll hcall with hnext | ⟨-, hnext⟩
    · exact .creating hr hspec hidle hadded hopen htask hnext hstage
    · exact .creating hr hspec hidle hadded hopen htask hnext .abandoned
  | admitted hspec hruling hidle hcreate hopened =>
    exact .admitted hspec hruling hidle hcreate hopened
  | withdrawing hcall hstage h hshort =>
    have h := h.of_task (hstep.task_of_ne_work (hwork rfl) h.task)
    rcases hstep.call_of_ne_poll hpoll hcall with hnext | ⟨-, hnext⟩
    · exact .withdrawing hnext hstage h hshort
    · exact .withdrawing hnext .abandoned h nofun
  | withdrawn hcall h hended =>
    have h := h.of_task (hstep.task_of_ne_work (hwork rfl) h.task)
    rcases hstep.call_of_ne_poll hpoll hcall with hnext | ⟨hactive, -⟩
    · exact .withdrawn hnext h hended
    · cases hactive

/-! ## Looking at a call -/

theorem getElem?_setCall_self {x : Call} (hx : s.calls[i]? = some x) (stage : CallStage) :
    (s.setCall i stage).calls[i]? = some { x with stage } := by
  rw [getElem?_setCall hx, if_pos rfl]

/-- The first look at a call. -/
theorem Stands.first {stage : CallStage} (hcall : s.calls[i]? = some { spec, stage })
    (hstage : stage = .created ∨ stage = .abandoned) (hstep : Step s (.poll i) s') :
    Stands spec i (s'.taskOf? i) [⟨s, s'⟩] s' := by
  cases hstep with
  | @refuse _ _ r hx hr =>
    rw [hcall] at hx
    cases hx
    have hnext := getElem?_setCall_self hcall (.returned r)
    rw [taskOf?_eq hnext]
    exact .answered hr hnext
  | @post _ tokens params options hx hvalid hne =>
    rw [hcall] at hx
    cases hx
    have hnext : ({ s with pool := s.pool.post (Batch.ofOption tokens) options }.setCall i
        (.entering s.pool.posted.length)).calls[i]? = _ := getElem?_setCall_self hcall _
    rw [taskOf?_eq hnext]
    refine .posted rfl ?_ hnext (.entering _)
    simp only [CallSpec.ruling?, CallSpec.immediate?, hvalid, List.isEmpty_iff, hne, if_false,
      CallSpec.openings?]
  | @begin _ input output batchSize params options hx hvalid hne =>
    rw [hcall] at hx
    cases hx
    let request : Request :=
      { input, output, batchSize, options, withScores := params.withScores }
    let begun : Service :=
      { s with gate := s.gate.enter, tasks := s.tasks ++ [TaskStage.working { request }] }
    have hnext : (begun.setCall i (.blocked s.tasks.length)).calls[i]? = _ :=
      getElem?_setCall_self (s := begun) hcall _
    have hspec : CallSpec.document input output batchSize params = .document request.input
        request.output request.batchSize request.options.params := by
      rw [Options.params_of_validate hvalid]
    rw [taskOf?_eq hnext]
    refine .opening ?_ hspec ⟨rfl, rfl, rfl, rfl⟩ ?_ List.getElem?_concat_length hnext .blocked
    · simp only [CallSpec.immediate?, hvalid, hne, if_false]
    · show ((s.gate.inFlight + 1 : ℕ) : ℤ) - s.gate.inFlight + 0 = 1
      omega
  | enter hx | collect hx | join hx =>
    rw [hcall] at hx
    cases hx
    rcases hstage with hstage | hstage <;> cases hstage
  | worker hact => cases hact

/-- A call for a batch goes on to its job. -/
theorem Posted.poll {stage : CallStage} (h : Posted stage)
    (hcall : s.calls[i]? = some { spec, stage }) (hstep : Step s (.poll i) s') :
    ∃ stage', s'.calls[i]? = some { spec, stage := stage' } ∧ Posted stage' ∧
      s'.taskOf? i = none := by
  cases hstep with
  | refuse hx | post hx | begin hx | join hx =>
    rw [hcall] at hx
    cases hx
    cases h
  | @enter _ job _ hx =>
    rw [hcall] at hx
    cases hx
    have hnext : ({ s with gate := s.gate.enter }.setCall i (.waiting job)).calls[i]? = _ :=
      getElem?_setCall_self hcall _
    exact ⟨_, hnext, .waiting job, taskOf?_eq hnext⟩
  | @collect _ job _ reply hx hfuture =>
    rw [hcall] at hx
    cases hx
    have hnext : ({ s with gate := s.gate.leave }.setCall i
        (.returned (batchReply reply))).calls[i]? = _ := getElem?_setCall_self hcall _
    exact ⟨_, hnext, .returned reply, taskOf?_eq hnext⟩
  | worker hact => cases hact

/-! ## The work of a task -/

theorem calls_of_work (hstep : Step s (.work j) s') : s'.calls = s.calls := by
  cases hstep with
  | worker hact => cases hact
  | _ => rfl

theorem batchSize_ne_zero {request : Request} (hr : spec.immediate? = none)
    (hspec : spec = .document request.input request.output request.batchSize
      request.options.params) : request.batchSize ≠ 0 := by
  intro hzero
  simp [hspec, CallSpec.immediate?, Options.validate_params, hzero] at hr

/-- A task that cannot open a file is about to give up the pool. -/
theorem Stands.fail {e : Error} {stage : CallStage} (hdocument : spec.isDocument = true)
    (hruling : spec.ruling? (moves ++ [⟨s, s'⟩]) = some (.decided (.error (.error e))))
    (hidle : ∀ m ∈ moves, m.IsIdle) (hadded : Move.total moves = 1)
    (hlength : moves.length ≤ 2) (hs' : s' = s.setTask j (.releasing (.error (.error e))))
    {t : TaskStage} (htask : s.tasks[j]? = some t)
    (hcall : s.calls[i]? = some { spec, stage }) (hstage : Waits j stage) :
    Stands spec i (some j) (moves ++ [⟨s, s'⟩]) s' := by
  subst hs'
  refine .withdrawing (t := .releasing (.error (.error e))) hcall hstage
    ⟨hdocument, hruling, ?_, ?_, rfl, ?_⟩ fun _ => ⟨nofun, ?_⟩
  · intro m hm
    rcases List.mem_append.mp hm with hm | hm
    · exact hidle m hm
    · rw [List.mem_singleton.mp hm]
      exact ⟨rfl, rfl, rfl, rfl⟩
  · exact List.getElem?_set_self (List.getElem?_eq_some_iff.mp htask).1
  · rw [Move.total_concat, hadded, Move.added_of_gate (by rfl)]
    rfl
  · rw [List.length_append, List.length_singleton]
    show moves.length + 1 + 3 ≤ 6
    omega

/-- The task opens the input. -/
theorem Stands.open {looked : Move} {stage : CallStage} {request : Request}
    (hr : spec.immediate? = none)
    (hspec : spec = .document request.input request.output request.batchSize
      request.options.params)
    (hlooked : looked.IsIdle) (hadded : Move.total [looked] = 1)
    (htask : s.tasks[j]? = some (.working { request }))
    (hcall : s.calls[i]? = some { spec, stage }) (hstage : Waits j stage)
    (hstep : Step s (.work j) s') : Stands spec i (some j) ([looked] ++ [⟨s, s'⟩]) s' := by
  cases hstep with
  | @work _ task task' pool files hx hwork =>
    rw [htask] at hx
    cases hx
    cases Document.Task.step_of_step? hwork with
    | refuse _ hzero => exact absurd hzero (batchSize_ne_zero hr hspec)
    | @noSource fault _ _ hopen =>
      refine .fail (e := .io request.input fault) (by rw [hspec]; rfl) ?_ ?_ ?_ (Nat.le_succ 1)
        rfl htask hcall hstage
      · simp only [List.cons_append, CallSpec.ruling?, hr]
        simp only [hspec, CallSpec.openings?, List.nil_append, hopen]
      · simpa using hlooked
      · exact hadded
    | openSource _ _ hopen =>
      have hlt := (List.getElem?_eq_some_iff.mp htask).1
      refine .creating hr hspec ⟨hlooked, ⟨rfl, rfl, rfl, rfl⟩⟩ ?_ hopen
        (List.getElem?_set_self hlt) hcall hstage
      show Move.total ([looked] ++ [_]) = 1
      rw [Move.total_concat, hadded, Move.added_of_gate (by rfl)]
      rfl
    | noOutput hstage | create hstage | overflow hstage | unreadable hstage | load hstage
    | invalid hstage | read hstage | fill hstage | endOfLines hstage | postLast hstage
    | done hstage | unflushed hstage => cases hstage
    | failed hwaits | wrote hwaits | jammed hwaits => cases hwaits <;> rename_i h <;> cases h
  | letGo hx | taskClose hx | taskWait hx | taskLeave hx =>
    rw [htask] at hx
    cases hx
  | worker hact => cases hact

/-- The task creates the output. -/
theorem Stands.create {looked opening : Move} {stage : CallStage} {request : Request}
    {source : Place} (hr : spec.immediate? = none)
    (hspec : spec = .document request.input request.output request.batchSize
      request.options.params)
    (hidle : looked.IsIdle ∧ opening.IsIdle) (hadded : Move.total [looked, opening] = 1)
    (hopen : opening.before.files.openSource request.input = .ok source)
    (htask : s.tasks[j]? = some (.working { request, stage := .creating source }))
    (hcall : s.calls[i]? = some { spec, stage }) (hstage : Waits j stage)
    (hstep : Step s (.work j) s') :
    Stands spec i (some j) ([looked, opening] ++ [⟨s, s'⟩]) s' := by
  cases hstep with
  | @work _ task task' pool files hx hwork =>
    rw [htask] at hx
    cases hx
    cases Document.Task.step_of_step? hwork with
    | @noOutput _ fault _ hcreate =>
      refine .fail (e := .io request.output fault) (by rw [hspec]; rfl) ?_ ?_ ?_ (Nat.le_refl 2)
        rfl htask hcall hstage
      · simp only [List.cons_append, CallSpec.ruling?, hr]
        simp only [hspec, CallSpec.openings?, List.nil_append, hopen, hcreate]
      · simpa using hidle
      · exact hadded
    | create _ hcreate =>
      refine .admitted hspec ?_ hidle hcreate rfl
      simp only [CallSpec.ruling?, hr]
      simp only [hspec, CallSpec.openings?, hopen, hcreate]
    | refuse hstage | noSource hstage | openSource hstage | overflow hstage | unreadable hstage
    | load hstage | invalid hstage | read hstage | fill hstage | endOfLines hstage
    | postLast hstage | done hstage | unflushed hstage => cases hstage
    | failed hwaits | wrote hwaits | jammed hwaits => cases hwaits <;> rename_i h <;> cases h
  | letGo hx | taskClose hx | taskWait hx | taskLeave hx =>
    rw [htask] at hx
    cases hx
  | worker hact => cases hact

/-! ## Withdrawing -/

/-- One more move of a call or a task that withdraws. -/
theorem Withdraws.move {e : Error} {t t' : TaskStage}
    (h : Withdraws spec i j moves e t s) (hidle : Move.IsIdle ⟨s, s'⟩)
    (htask : s'.tasks[j]? = some t') (hresult : t'.result? = t.result?)
    (hadded : Move.added ⟨s, s'⟩ + (if t.isInside then 1 else 0) =
      if t'.isInside then 1 else 0) :
    Withdraws spec i j (moves ++ [⟨s, s'⟩]) e t' s' where
  document := h.document
  ruling := CallSpec.ruling?_append h.ruling _
  idle m hm := by
    rcases List.mem_append.mp hm with hm | hm
    · exact h.idle m hm
    · rw [List.mem_singleton.mp hm]
      exact hidle
  task := htask
  result := hresult.trans h.result
  added := by rw [Move.total_concat, h.added, Int.add_comm, hadded]

/-- As long as its caller waits, a task is not the last that holds the pool. -/
theorem Held.owners_ne_one {size : Nat} (hheld : Held size s) {c : Call}
    (hcall : s.calls[i]? = some c) (hactive : c.isActive = true) {t : TaskStage}
    (htask : s.tasks[j]? = some t) (ht : t.holdsPool = true) : s.owners ≠ 1 := by
  have hpos := List.countP_pos_iff.mpr ⟨t, List.mem_of_getElem? htask, ht⟩
  have howners : s.owners = s.tasks.countP TaskStage.holdsPool + 1 := by
    rw [owners, hheld.handle_eq hcall hactive]
    rfl
  omega

theorem Stands.withdraw {size : Nat} {e : Error} {t : TaskStage} {stage : CallStage}
    (hheld : Held size s) (hcall : s.calls[i]? = some { spec, stage }) (hstage : Waits j stage)
    (h : Withdraws spec i j moves e t s)
    (hshort : stage = .blocked j → (∀ r, t ≠ .closing r) ∧ moves.length + t.distance ≤ 6)
    (hstep : Step s (.work j) s') : Stands spec i (some j) (moves ++ [⟨s, s'⟩]) s' := by
  have hlt := (List.getElem?_eq_some_iff.mp h.task).1
  have hset : ∀ {base : Service} (stage : TaskStage), base.tasks = s.tasks →
      (base.setTask j stage).tasks[j]? = some stage := by
    intro base stage hbase
    rw [setTask, hbase]
    exact List.getElem?_set_self hlt
  have hlength : (moves ++ [(⟨s, s'⟩ : Move)]).length = moves.length + 1 := by
    rw [List.length_append, List.length_singleton]
  have hnext : s'.calls[i]? = some { spec, stage } := by rw [calls_of_work hstep, hcall]
  cases hstep with
  | work hx =>
    have hresult := h.result
    rw [h.task] at hx
    cases hx
    cases hresult
  | @letGo _ r hx _ =>
    obtain rfl := Option.some.inj (h.task.symm.trans hx)
    refine .withdrawing hnext hstage
      (h.move ⟨rfl, rfl, rfl, rfl⟩ (hset (.leaving r) rfl) rfl ?_) fun hblocked => ?_
    · rw [Move.added_of_gate (by rfl)]
      rfl
    · refine ⟨fun _ h => TaskStage.noConfusion h, ?_⟩
      have hshort : moves.length + 3 ≤ 6 := (hshort hblocked).2
      rw [hlength]
      show moves.length + 1 + 1 ≤ 6
      omega
  | @taskClose _ r pool hx howners hpool =>
    obtain rfl := Option.some.inj (h.task.symm.trans hx)
    refine .withdrawing hnext hstage
      (h.move (isIdle_of_closing (.inl rfl) hpool _ _) (hset (.closing r) rfl) rfl ?_)
      fun hblocked => ?_
    · rw [Move.added_of_gate (by rfl)]
      rfl
    · rw [hblocked] at hcall
      exact absurd howners (hheld.owners_ne_one hcall rfl hx rfl)
  | @taskWait _ r act pool hx hact hpool =>
    obtain rfl := Option.some.inj (h.task.symm.trans hx)
    refine .withdrawing hnext hstage
      (h.move (isIdle_of_closing (.inr hact) hpool _ _) (hset _ rfl) ?_ ?_) fun hblocked => ?_
    · split <;> rfl
    · rw [Move.added_of_gate (by rfl)]
      by_cases hjoined : pool.phase = Pool.Phase.joined
      · rw [if_pos hjoined]
        rfl
      · rw [if_neg hjoined]
        rfl
    · exact absurd rfl ((hshort hblocked).1 r)
  | @taskLeave _ r gate hx hgate =>
    obtain rfl := Option.some.inj (h.task.symm.trans hx)
    refine .withdrawing hnext hstage
      (h.move ⟨rfl, rfl, rfl, rfl⟩ (hset (.ended r) rfl) rfl ?_) fun hblocked => ?_
    · have hcount := Gate.inFlight_decrement? hgate
      show (gate.inFlight : ℤ) - s.gate.inFlight + 1 = 0
      omega
    · refine ⟨fun _ h => TaskStage.noConfusion h, ?_⟩
      have hshort : moves.length + 1 ≤ 6 := (hshort hblocked).2
      rw [hlength]
      exact hshort
  | worker hact => cases hact

theorem Stands.join {e : Error} {t : TaskStage} {stage : CallStage}
    (hcall : s.calls[i]? = some { spec, stage }) (hstage : Waits j stage)
    (h : Withdraws spec i j moves e t s) (hstep : Step s (.poll i) s') :
    Stands spec i (some j) (moves ++ [⟨s, s'⟩]) s' := by
  cases hstep with
  | refuse hx | post hx | begin hx | enter hx | collect hx =>
    rw [hcall] at hx
    cases hx
    cases hstage
  | @join _ _ _ r hx htask =>
    rw [hcall] at hx
    cases hx
    cases hstage
    obtain rfl := Option.some.inj (h.task.symm.trans htask)
    have hr := h.result
    cases hr
    refine .withdrawn (getElem?_setCall_self hcall _)
      (h.move ⟨rfl, rfl, rfl, rfl⟩ h.task rfl ?_) ⟨_, rfl⟩
    rw [Move.added_of_gate (by rfl)]
    rfl
  | worker hact => cases hact

/-! ## The whole course -/

theorem Stands.own {size : Nat} (hheld : Held size s) (h : Stands spec i task? moves s)
    (hown : a.IsOwn i task?) (hstep : Step s a s') :
    Stands spec i (task?.or (s'.taskOf? i)) (moves ++ [⟨s, s'⟩]) s' := by
  rcases hown with rfl | ⟨j, rfl, rfl⟩
  · cases h with
    | unseen hcall hstage => exact .first hcall hstage hstep
    | answered _ hcall =>
      cases hstep.of_poll hcall
    | posted hspec hruling hcall hstage =>
      obtain ⟨stage', hnext, hstage', htask⟩ := hstage.poll hcall hstep
      rw [htask]
      exact .posted hspec (CallSpec.ruling?_append hruling _) hnext hstage'
    | opening _ _ _ _ htask hcall hstage | creating _ _ _ _ _ htask hcall hstage =>
      have hlook := hstep.of_poll hcall
      cases hstage with
      | blocked =>
        cases hlook with
        | blocked hended =>
          rw [htask] at hended
          cases hended
      | abandoned => cases hlook
    | admitted hspec hruling hidle hcreate hopened =>
      exact .admitted hspec (CallSpec.ruling?_append hruling _) hidle hcreate hopened
    | withdrawing hcall hstage h _ => exact .join hcall hstage h hstep
    | withdrawn hcall => cases hstep.of_poll hcall
  · cases h with
    | opening hr hspec hlooked hadded htask hcall hstage =>
      exact .open hr hspec hlooked hadded htask hcall hstage hstep
    | creating hr hspec hidle hadded hopen htask hcall hstage =>
      exact .create hr hspec hidle hadded hopen htask hcall hstage hstep
    | admitted hspec hruling hidle hcreate hopened =>
      exact .admitted hspec (CallSpec.ruling?_append hruling _) hidle hcreate hopened
    | withdrawing hcall hstage h hshort => exact .withdraw hheld hcall hstage h hshort hstep
    | withdrawn _ h hended =>
      obtain ⟨r, rfl⟩ := hended
      exact absurd h.task (hstep.ne_ended r)

theorem Errand.stands {Allows : Service → Action → Prop} {loader : Model.Loader}
    {files : Files} {settings : Settings} {start : Service}
    (h : Errand Allows start i task? moves s)
    (hstart : Reachable loader files settings Allows start)
    (hcall : start.calls[i]? = some { spec }) : Stands spec i task? moves s := by
  induction h with
  | start => exact .unseen hcall (.inl rfl)
  | own h hown _ hstep ih => exact ih.own (h.reachable hstart).held hown (step_of_step? hstep)
  | other _ hother _ hstep ih => exact ih.other hother (step_of_step? hstep)

/-! ## What becomes of a call that is turned away -/

theorem step?_of_working {task : Document.Task} (htask : s.tasks[j]? = some (.working task))
    (h : (task.step? s.pool s.files).isSome) : (s.step? (.work j)).isSome := by
  obtain ⟨⟨task', pool, files⟩, hstep⟩ := Option.isSome_iff_exists.mp h
  simp [step?, work?, htask, hstep]

theorem task_opens {request : Request} (p : Pool) (fs : Files) (hne : request.batchSize ≠ 0) :
    (Document.Task.step? { request } p fs).isSome := by
  simp only [Document.Task.step?, hne, if_false]
  split <;> rfl

theorem task_creates (request : Request) (source : Place) (p : Pool) (fs : Files) :
    (Document.Task.step? { request, stage := .creating source } p fs).isSome := by
  simp only [Document.Task.step?]
  split <;> rfl

/-- A task that withdraws while its caller waits can go on, or its caller has its reply. -/
theorem Withdraws.progress {size : Nat} {e : Error} {t : TaskStage} (hheld : Held size s)
    (hcounted : Counted s) (hcall : s.calls[i]? = some { spec, stage := .blocked j })
    (h : Withdraws spec i j moves e t s) (hclosing : ∀ r, t ≠ .closing r) :
    ∃ a, a.IsOwn i (some j) ∧ (s.step? a).isSome := by
  have htask := h.task
  cases t with
  | working => cases h.result
  | releasing r =>
    have howners := hheld.owners_ne_one hcall rfl htask rfl
    exact ⟨.work j, .inr ⟨j, rfl, rfl⟩, by simp [step?, work?, htask, howners]⟩
  | closing r => exact absurd rfl (hclosing r)
  | leaving r =>
    obtain ⟨gate, hgate⟩ := hcounted.exists_decrement? htask rfl
    exact ⟨.work j, .inr ⟨j, rfl, rfl⟩, by simp [step?, work?, htask, hgate]⟩
  | ended r => exact ⟨.poll i, .inl rfl, by simp [step?, poll?, hcall, htask]⟩

theorem Stands.progress {size : Nat} (h : Stands spec i task? moves s) (hheld : Held size s)
    (hcounted : Counted s) (hruling : spec.ruling? moves ≠ some .admitted) {c : Call}
    (hc : s.calls[i]? = some c) (hactive : c.isActive = true) :
    moves.length ≤ 6 ∧ ∃ a, a.IsOwn i task? ∧ (s.step? a).isSome := by
  cases h with
  | unseen hcall hstage =>
    obtain rfl := Option.some.inj (hc.symm.trans hcall)
    rcases hstage with rfl | rfl
    · have hlook := exists_step?_of_created hcall rfl
      exact ⟨Nat.zero_le _, _, .inl rfl, Option.isSome_iff_exists.mpr hlook⟩
    · cases hactive
  | answered _ hcall | withdrawn hcall =>
    obtain rfl := Option.some.inj (hc.symm.trans hcall)
    cases hactive
  | posted _ hadmitted | admitted _ hadmitted => exact absurd hadmitted hruling
  | opening hr hspec _ _ htask =>
    refine ⟨Nat.le_of_ble_eq_true rfl, _, .inr ⟨_, rfl, rfl⟩, step?_of_working htask ?_⟩
    exact task_opens _ _ (batchSize_ne_zero hr hspec)
  | creating _ _ _ _ _ htask =>
    refine ⟨Nat.le_of_ble_eq_true rfl, _, .inr ⟨_, rfl, rfl⟩, step?_of_working htask ?_⟩
    exact task_creates _ _ _ _
  | withdrawing hcall hstage h hshort =>
    obtain rfl := Option.some.inj (hc.symm.trans hcall)
    cases hstage with
    | blocked =>
      obtain ⟨hclosing, hlength⟩ := hshort rfl
      exact ⟨Nat.le_trans (Nat.le_add_right _ _) hlength, h.progress hheld hcounted hcall hclosing⟩
    | abandoned => cases hactive

/-- What a call gets that is turned away, and what it leaves behind. -/
structure Judged (spec : CallSpec) (i : Nat) (task? : Option Nat) (moves : List Move)
    (s : Service) : Prop where
  /-- The first check that fails decides the reply. -/
  reply : ∀ r, s.calls[i]? = some { spec, stage := .returned r } →
    spec.ruling? moves = some .admitted ∨ spec.ruling? moves = some (.decided r)
  /-- Unless all checks pass, nothing is posted, the model is not called and no file is
  touched. -/
  idle : spec.ruling? moves ≠ some .admitted → ∀ m ∈ moves, m.IsIdle
  /-- When it has returned, it adds nothing to the counter of the gate. -/
  uncounted : ∀ r, spec.ruling? moves ≠ some .admitted →
    s.calls[i]? = some { spec, stage := .returned r } → Move.total moves = 0
  /-- Until it has returned, it can go on, and it need not often. -/
  progress : spec.ruling? moves ≠ some .admitted → ∀ c, s.calls[i]? = some c →
    c.isActive = true → moves.length ≤ 6 ∧ ∃ a, a.IsOwn i task? ∧ (s.step? a).isSome
  /-- A call for a batch is turned away at once, and nothing else changes. -/
  batch : ∀ tokens params, spec = .batch tokens params →
    ((∃ e, s.calls[i]? = some { spec, stage := .returned (.error (.error (.options e))) }) ↔
      moves ≠ [] ∧ (params.beamSize = 0 ∨ params.numHypotheses = 0 ∨
        params.maxDecodingLength < params.minDecodingLength ∨
        params.lengthPenalty.isFinite = false)) ∧
    (moves ≠ [] → params.Valid → Batch.ofOption tokens = [] →
      s.calls[i]? = some { spec, stage := .returned (.ok (.results {})) }) ∧
    (moves ≠ [] → ¬ params.Valid ∨ Batch.ofOption tokens = [] →
      ∃ before r, moves = [⟨before, before.setCall i (.returned r)⟩])
  /-- The output of a document is created when all checks have passed. -/
  created : ∀ input output batchSize params, spec = .document input output batchSize params →
    spec.ruling? moves = some .admitted →
      ∃ looked opening creating rest handle, moves = looked :: opening :: creating :: rest ∧
        looked.IsIdle ∧ opening.IsIdle ∧
        creating.before.files.create output = .ok (handle, creating.after.files) ∧
        (creating.after.files.node? handle.place = some (.file []) ∨
          ∃ taken room, creating.before.files.node? handle.place = some (.device taken room) ∧
            creating.after.files = creating.before.files)

/-! ### The parts -/

theorem Stands.reply (h : Stands spec i task? moves s) {r : CallReply}
    (hr : s.calls[i]? = some { spec, stage := .returned r }) :
    spec.ruling? moves = some .admitted ∨ spec.ruling? moves = some (.decided r) := by
  cases h with
  | unseen hcall hstage =>
    rw [hr] at hcall
    cases hcall
    rcases hstage with hstage | hstage <;> cases hstage
  | answered himmediate hcall =>
    rw [hr] at hcall
    cases hcall
    exact .inr (CallSpec.ruling?_of_immediate? himmediate _ _)
  | posted _ hruling | admitted _ hruling => exact .inl hruling
  | opening _ _ _ _ _ hcall hstage | creating _ _ _ _ _ _ hcall hstage
  | withdrawing hcall hstage =>
    rw [hr] at hcall
    cases hcall
    cases hstage
  | withdrawn hcall h =>
    rw [hr] at hcall
    cases hcall
    exact .inr h.ruling

theorem Stands.idle (h : Stands spec i task? moves s)
    (hruling : spec.ruling? moves ≠ some .admitted) : ∀ m ∈ moves, m.IsIdle := by
  cases h with
  | unseen => exact List.forall_mem_nil _
  | answered =>
    rw [List.forall_mem_singleton]
    exact isIdle_setCall _ _ _
  | posted _ hadmitted | admitted _ hadmitted => exact absurd hadmitted hruling
  | opening _ _ hlooked =>
    rw [List.forall_mem_singleton]
    exact hlooked
  | creating _ _ hidle => simpa using hidle
  | withdrawing _ _ h | withdrawn _ h => exact h.idle

theorem Stands.uncounted (h : Stands spec i task? moves s)
    (hruling : spec.ruling? moves ≠ some .admitted) {r : CallReply}
    (hr : s.calls[i]? = some { spec, stage := .returned r }) : Move.total moves = 0 := by
  cases h with
  | unseen => rfl
  | answered =>
    show Move.total ([] ++ [_]) = 0
    rw [Move.total_concat, Move.added_of_gate (by rfl)]
    rfl
  | posted _ hadmitted | admitted _ hadmitted => exact absurd hadmitted hruling
  | opening _ _ _ _ _ hcall hstage | creating _ _ _ _ _ _ hcall hstage
  | withdrawing hcall hstage =>
    rw [hr] at hcall
    cases hcall
    cases hstage
  | withdrawn _ h hended =>
    obtain ⟨r, rfl⟩ := hended
    exact h.added

theorem not_valid_iff (p : DecodingParams) : ¬ p.Valid ↔ p.beamSize = 0 ∨ p.numHypotheses = 0 ∨
    p.maxDecodingLength < p.minDecodingLength ∨ p.lengthPenalty.isFinite = false := by
  have hvalid : p.Valid ↔ p.beamSize ≠ 0 ∧ p.numHypotheses ≠ 0 ∧
      p.minDecodingLength ≤ p.maxDecodingLength ∧ p.lengthPenalty.isFinite = true :=
    ⟨fun h => ⟨h.1, h.2, h.3, h.4⟩, fun h => ⟨h.1, h.2.1, h.2.2.1, h.2.2.2⟩⟩
  rw [hvalid, ← UInt64.not_le, ← Bool.not_eq_true]
  tauto

/-- What a call for a batch gets at once. -/
theorem immediate?_batch (tokens : Option Batch) (params : DecodingParams) :
    (∃ e, ¬ params.Valid ∧ (CallSpec.batch tokens params).immediate? =
        some (.error (.error (.options e)))) ∨
      params.Valid ∧ (CallSpec.batch tokens params).immediate? =
        if Batch.ofOption tokens = [] then some (.ok (.results {})) else none := by
  simp only [CallSpec.immediate?, List.isEmpty_iff]
  cases hvalidate : Options.validate params with
  | error e =>
    refine .inl ⟨e, fun hvalid => ?_, rfl⟩
    obtain ⟨o, ho⟩ := (Options.exists_validate_iff params).mpr hvalid
    rw [hvalidate] at ho
    cases ho
  | ok o => exact .inr ⟨(Options.exists_validate_iff params).mp ⟨o, hvalidate⟩, rfl⟩

theorem Stands.batch {tokens : Option Batch} {params : DecodingParams}
    (h : Stands (.batch tokens params) i task? moves s) :
    ((∃ e, s.calls[i]? =
        some { spec := .batch tokens params, stage := .returned (.error (.error (.options e))) }) ↔
      moves ≠ [] ∧ ¬ params.Valid) ∧
    (moves ≠ [] → params.Valid → Batch.ofOption tokens = [] → s.calls[i]? =
      some { spec := .batch tokens params, stage := .returned (.ok (.results {})) }) ∧
    (moves ≠ [] → ¬ params.Valid ∨ Batch.ofOption tokens = [] →
      ∃ before r, moves = [⟨before, before.setCall i (.returned r)⟩]) := by
  have himmediate := immediate?_batch tokens params
  cases h with
  | unseen hcall hstage =>
    refine ⟨⟨fun ⟨e, he⟩ => ?_, fun h => absurd rfl h.1⟩, fun h => absurd rfl h,
      fun h => absurd rfl h⟩
    rw [hcall] at he
    cases he
    rcases hstage with hstage | hstage <;> cases hstage
  | @answered before _ r hr hcall =>
    rw [hcall]
    refine ⟨?_, fun _ hvalid hempty => ?_, fun _ _ => ⟨before, r, rfl⟩⟩
    · obtain ⟨e, hinvalid, he⟩ | ⟨hvalid, he⟩ := himmediate
      · obtain rfl := Option.some.inj (hr.symm.trans he)
        exact ⟨fun _ => ⟨nofun, hinvalid⟩, fun _ => ⟨e, rfl⟩⟩
      · rw [hr] at he
        refine ⟨fun ⟨e, h⟩ => ?_, fun h => absurd hvalid h.2⟩
        cases h
        split at he <;> cases he
    · obtain ⟨e, hinvalid, -⟩ | ⟨-, he⟩ := himmediate
      · exact absurd hvalid hinvalid
      · rw [if_pos hempty, hr] at he
        rw [Option.some.inj he]
  | @posted _ _ stage _ _ _ hruling hcall hstage =>
    have hnone := CallSpec.immediate?_of_admitted hruling
    obtain ⟨e, -, he⟩ | ⟨hvalid, he⟩ := himmediate
    · rw [hnone] at he
      cases he
    · have hne : Batch.ofOption tokens ≠ [] := by
        intro hempty
        rw [hnone, if_pos hempty] at he
        cases he
      refine ⟨⟨fun ⟨e, h⟩ => ?_, fun h => absurd hvalid h.2⟩, fun _ _ hempty => absurd hempty hne,
        fun _ h => ?_⟩
      · rw [hcall] at h
        exact absurd (congrArg Call.stage (Option.some.inj h)) (hstage.ne_options e)
      · rcases h with h | h
        · exact absurd hvalid h
        · exact absurd h hne
  | opening _ hspec | creating _ hspec | admitted hspec => cases hspec
  | withdrawing _ _ h | withdrawn _ h => cases h.document

theorem Stands.created {input output : String} {batchSize : Nat} {params : DecodingParams}
    (h : Stands (.document input output batchSize params) i task? moves s)
    (hruling : (CallSpec.document input output batchSize params).ruling? moves = some .admitted) :
    ∃ looked opening creating rest handle, moves = looked :: opening :: creating :: rest ∧
      looked.IsIdle ∧ opening.IsIdle ∧
      creating.before.files.create output = .ok (handle, creating.after.files) ∧
      (creating.after.files.node? handle.place = some (.file []) ∨
        ∃ taken room, creating.before.files.node? handle.place = some (.device taken room) ∧
          creating.after.files = creating.before.files) := by
  cases h with
  | unseen => cases hruling
  | answered hr =>
    rw [CallSpec.ruling?_of_immediate? hr] at hruling
    cases hruling
  | posted hspec => cases hspec
  | opening hr =>
    simp only [CallSpec.ruling?, hr, CallSpec.openings?] at hruling
    cases hruling
  | creating hr hspec _ _ hopen =>
    cases hspec
    simp only [CallSpec.ruling?, hr, CallSpec.openings?, hopen] at hruling
    cases hruling
  | @admitted _ looked opening creating rest _ _ opened hspec _ hidle hcreate hopened =>
    cases hspec
    obtain ⟨handle, opened⟩ := opened
    obtain rfl : creating.after.files = opened := hopened
    obtain ⟨-, -, hnode⟩ := Files.create_spec hcreate
    exact ⟨looked, opening, creating, rest, handle, rfl, hidle.1, hidle.2, hcreate, hnode⟩
  | withdrawing _ _ h | withdrawn _ h =>
    rw [h.ruling] at hruling
    cases hruling

/-- A call is decided by the first check that fails, and then leaves everything as it was. -/
theorem Reachable.judged {loader : Model.Loader} {files : Files} {settings : Settings}
    {Allows : Service → Action → Prop} {start : Service}
    (hstart : Reachable loader files settings Allows start)
    (hcall : start.calls[i]? = some { spec }) (h : Errand Allows start i task? moves s) :
    Judged spec i task? moves s := by
  have hstands := h.stands hstart hcall
  have hreach := h.reachable hstart
  refine ⟨fun r => hstands.reply, hstands.idle, fun r hr => hstands.uncounted hr,
    fun hruling c => hstands.progress hreach.held hreach.counted hruling, ?_, ?_⟩
  · rintro tokens params rfl
    rw [← not_valid_iff]
    exact hstands.batch
  · rintro input output batchSize params rfl
    exact hstands.created

/-- A service with a call for a document that does not exist, and another one for a batch. -/
def misdirected : Service :=
  { echoService with
    calls := [{ spec := .document "in" "out" 1 {} }, { spec := .batch (some [["a"]]) {} }] }

theorem judged_misdirected : ∃ moves s,
    Errand Follows misdirected 0 (some 0) moves s ∧ moves.length = 5 ∧
      s.calls[0]? = some { spec := .document "in" "out" 1 {},
                           stage := .returned (.error (.error (.io "in" .notFound))) } ∧
      s.pool.posted.length = 1 ∧ Judged (.document "in" "out" 1 {}) 0 (some 0) moves s := by
  have hstart : Reachable (fun _ => .ok (Model.Echo.model {})) Files.empty echoSettings Follows
      echoService := .start rfl
  have hreach : Reachable (fun _ => .ok (Model.Echo.model {})) Files.empty echoSettings Follows
      misdirected := (hstart.step (.call _) trivial rfl).step (.call _) trivial rfl
  have hmade : Errand Follows misdirected 0 none [] misdirected := .start
  have hbegun := hmade.own (a := .poll 0) (.inl rfl) trivial rfl
  have hposted := hbegun.other (a := .poll 1) (by rintro (h | ⟨j, -, h⟩) <;> cases h) trivial rfl
  have hopened := hposted.own (a := .work 0) (.inr ⟨0, rfl, rfl⟩) trivial rfl
  have hleft := (hopened.own (a := .work 0) (.inr ⟨0, rfl, rfl⟩) trivial rfl).own
    (a := .work 0) (.inr ⟨0, rfl, rfl⟩) trivial rfl
  have hreturned := hleft.own (a := .poll 0) (.inl rfl) trivial rfl
  exact ⟨_, _, hreturned, rfl, rfl, rfl, hreach.judged rfl hreturned⟩

end DecodingDesk.Service
