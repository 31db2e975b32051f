import Mathlib.Order.Nat
import DecodingDesk.Proofs.Document.Progress
import DecodingDesk.Proofs.Service.Document
import DecodingDesk.Proofs.Service.Drop
/-!
# A call for a document returns

A call for a document that nobody gives up is brought nearer to its result by its caller, who
looks at it, by its task, or by somebody in the pool who brings the task nearer to its end.
Whatever else happens in the service leaves the call as near as it was.  So the call returns
in every run in which nobody who can act is passed over for ever.
-/

namespace DecodingDesk.Service

open Document (Course Scene Shared Site)

variable {s s' : Service} {a : Action} {c : Scene} {i : Nat}

/-! ## How far a call is from its result -/

/-- The site of the only task of a service. -/
def site (s : Service) (task : Document.Task) : Site where
  task
  pool := s.pool
  files := s.files

/-- Who acts for the only task of a service. -/
def Actor.ofSite : Site.Actor → Actor
  | .task => .task 0
  | .pool actor => .pool actor

/-- What a task has before it, when its lines are written or it has failed. -/
def TaskStage.distance : TaskStage → ℕ
  | working _ => 4
  | releasing _ => 3
  | closing _ => 2
  | leaving _ => 1
  | ended _ => 0

/-- What remains of the only call for a document: what its task has still to do, and that after
which there is a task. -/
def remaining (s : Service) : ℕ ×ₗ (ℕ ×ₗ ℕ) ×ₗ ℕ :=
  match s.tasks with
  | [] => toLex (5, ⊥)
  | .working task :: _ => toLex (4, (s.site task).rank)
  | t :: _ => toLex (t.distance, ⊥)

/-- A call for the document of a scene that is under way. -/
structure Ready (c : Scene) (i : Nat) (s : Service) : Prop where
  held : Held c.size s
  counted : Counted s
  custody : Custody s
  obeys : Pool.Obeys c.model s.pool
  sole : Sole c i s
  model : s.model = c.model
  dispatched : Dispatched c s.pool s.files (s.stage? i) s.tasks
  active : ∃ x, s.calls[i]? = some x ∧ x.isActive = true

namespace Ready

theorem handle_eq (h : Ready c i s) : s.handle = .serving := by
  obtain ⟨x, hx, hactive⟩ := h.active
  exact h.held.handle_eq hx hactive

theorem shared (h : Ready c i s) : Shared c.model c.size s.pool := by
  obtain ⟨x, hx, hactive⟩ := h.active
  exact ⟨h.held.pool, h.obeys, h.held.phase_of_call hx hactive⟩

/-- A call under way has not been looked at, or waits for its task. -/
theorem created_or_blocked (h : Ready c i s) :
    (s.stage? i = some .created ∧ s.tasks = []) ∨
      ∃ t, s.stage? i = some (.blocked 0) ∧ s.tasks = [t] ∧ Attains c s.pool s.files t := by
  obtain ⟨x, hx, hactive⟩ := h.active
  have hdispatched := h.dispatched
  have hstage := stage?_of_getElem? hx
  rw [hstage] at hdispatched ⊢
  generalize s.tasks = tasks at hdispatched ⊢
  rw [Call.isActive] at hactive
  generalize x.stage = stage at hdispatched hactive ⊢
  generalize hsome : some stage = stage? at hdispatched ⊢
  cases hdispatched with
  | missing => cases hsome
  | created => exact .inl ⟨rfl, rfl⟩
  | blocked hattains => exact .inr ⟨_, rfl, rfl, hattains⟩
  | forsaken | abandoned | returned =>
    cases hsome
    cases hactive

/-- The task is not over, and its site is one at which somebody helps. -/
theorem ready_site (h : Ready c i s) {task : Document.Task} (htasks : s.tasks = [.working task]) :
    Site.Ready c.model c.size (s.site task) ∧
      task.result? = none := by
  obtain ⟨-, hnil⟩ | ⟨t, -, ht, hattains⟩ := h.created_or_blocked
  · rw [htasks] at hnil
    cases hnil
  · rw [htasks] at ht
    cases ht
    cases hattains with
    | working hcourse hresult => exact ⟨Site.ready_of_course h.shared hcourse hresult, hresult⟩
    | settled _ _ ht => cases ht

/-- The only task does not close the pool, because the service holds it. -/
theorem ne_closing (h : Ready c i s) {r : Except Failure Nat} : s.tasks ≠ [.closing r] := by
  intro htasks
  have hnobody := h.custody.closers_eq_zero h.shared.serving
  rw [closers, htasks, h.handle_eq] at hnobody
  cases hnobody

end Ready

/-! ## Who brings a call nearer -/

/-- Whether anything that somebody does next brings the call nearer to its result. -/
inductive Helps (i : Nat) (s : Service) : Actor → Prop where
  | look (hstage : s.stage? i = some .created) : Helps i s (.caller i)
  | work {task : Document.Task} {actor : Site.Actor} (htasks : s.tasks = [.working task])
      (hhelps : (s.site task).Helps actor) :
      Helps i s (.ofSite actor)
  | letGo {r : Except Failure Nat} (htasks : s.tasks = [.releasing r]) : Helps i s (.task 0)
  | leave {r : Except Failure Nat} (htasks : s.tasks = [.leaving r]) : Helps i s (.task 0)
  | collect {r : Except Failure Nat} (hstage : s.stage? i = some (.blocked 0))
      (htasks : s.tasks = [.ended r]) : Helps i s (.caller i)

namespace Ready

/-- As long as a call has not returned, somebody can bring it nearer to its result. -/
theorem exists_helps (h : Ready c i s) (hmodel : ∀ b o, c.model b o ≠ .panicked .lethal) :
    ∃ actor, s.Helps i actor := by
  obtain ⟨hstage, -⟩ | ⟨t, hstage, htasks, -⟩ := h.created_or_blocked
  · exact ⟨_, .look hstage⟩
  · cases t with
    | working task =>
      obtain ⟨hready, hresult⟩ := h.ready_site htasks
      obtain ⟨actor, hhelps⟩ := hready.exists_helps c.size_pos hmodel hresult
      exact ⟨_, .work htasks hhelps⟩
    | releasing r => exact ⟨_, .letGo htasks⟩
    | closing r => exact absurd htasks h.ne_closing
    | leaving r => exact ⟨_, .leave htasks⟩
    | ended r => exact ⟨_, .collect hstage htasks⟩

theorem step?_collect (h : Ready c i s) {r : Except Failure Nat}
    (hstage : s.stage? i = some (.blocked 0)) (htasks : s.tasks = [.ended r]) :
    ∃ s', s.step? (.poll i) = some s' := by
  obtain ⟨⟨spec, stage⟩, hx, -⟩ := h.active
  rw [stage?_of_getElem? hx] at hstage
  cases hstage
  refine ⟨s.setCall i (.returned (taskReply r)), ?_⟩
  simp [step?, poll?, hx, htasks]

/-- What a task does next when its lines are written or it has failed. -/
theorem step?_work (h : Ready c i s) {r : Except Failure Nat}
    (htasks : s.tasks = [.releasing r] ∨ s.tasks = [.leaving r]) :
    ∃ s', s.step? (.work 0) = some s' := by
  rcases htasks with htasks | htasks
  · have howners : s.owners ≠ 1 := by
      simp [owners, htasks, h.handle_eq, TaskStage.holdsPool, Handle.holdsPool]
    exact ⟨s.setTask 0 (.leaving r), by simp [step?, work?, htasks, howners]⟩
  · have htask : s.tasks[0]? = some (.leaving r) := by rw [htasks, List.getElem?_cons_zero]
    obtain ⟨gate, hgate⟩ := h.counted.exists_decrement? htask rfl
    exact ⟨{ s with gate }.setTask 0 (.ended r), by simp [step?, work?, htasks, hgate]⟩

/-- What can happen at the site of the only task can happen in the service. -/
theorem canAct_of_site (h : Ready c i s) {task : Document.Task} (htasks : s.tasks = [.working task])
    {actor : Site.Actor}
    (hcan : (s.site task).CanAct c.model actor) :
    s.CanAct (.ofSite actor) := by
  obtain ⟨m, site, hactor, hallows, hstep⟩ := hcan
  cases m with
  | task =>
    cases hactor
    obtain ⟨⟨task', pool, files⟩, hstep, -⟩ := Option.map_eq_some_iff.mp hstep
    have hwork : task.step? s.pool s.files = some (task', pool, files) := hstep
    refine ⟨.work 0, { s with pool, files }.setTask 0 (.ofTask task'), rfl, trivial, ?_⟩
    simp only [step?, work?, htasks, List.getElem?_cons_zero, Option.bind_eq_bind,
      Option.bind_some, hwork]
    rfl
  | pool act =>
    obtain ⟨pool, hstep, -⟩ := Option.map_eq_some_iff.mp hstep
    have hpool : s.pool.step? act = some pool := hstep
    obtain ⟨x, hact, rfl⟩ := Option.map_eq_some_iff.mp hactor
    have hnext : (s.pool.step? act).map (fun pool => { s with pool }) = some { s with pool } := by
      rw [hpool]
      rfl
    cases act with
    | notify sleeper => cases hact; exact ⟨.notifyWorker sleeper, _, rfl, trivial, hnext⟩
    | look k => cases hact; exact ⟨.look k, _, rfl, trivial, hnext⟩
    | finish k outcome =>
      cases hact
      refine ⟨.finish k outcome, _, rfl, ?_, hnext⟩
      rw [Follows, h.model]
      exact hallows
    | post | forget | close | wakeAll | join => cases hact

theorem canAct (h : Ready c i s) {actor : Actor} (hhelps : s.Helps i actor) :
    s.CanAct actor := by
  cases hhelps with
  | look hstage =>
    obtain ⟨x, hx, -⟩ := h.active
    rw [stage?_of_getElem? hx, Option.some_inj] at hstage
    obtain ⟨s', hstep⟩ := exists_step?_of_created hx hstage
    exact ⟨.poll i, s', rfl, trivial, hstep⟩
  | work htasks hhelps => exact h.canAct_of_site htasks ((h.ready_site htasks).1.canAct hhelps)
  | letGo htasks =>
    obtain ⟨s', hstep⟩ := h.step?_work (.inl htasks)
    exact ⟨.work 0, s', rfl, trivial, hstep⟩
  | leave htasks =>
    obtain ⟨s', hstep⟩ := h.step?_work (.inr htasks)
    exact ⟨.work 0, s', rfl, trivial, hstep⟩
  | collect hstage htasks =>
    obtain ⟨s', hstep⟩ := h.step?_collect hstage htasks
    exact ⟨.poll i, s', rfl, trivial, hstep⟩

/-- The stage that a call reaches by giving up or by returning is another call's. -/
theorem ne_of_stage (h : Ready c i s) {k : Nat} {stage : CallStage}
    (hstage : s.stage? k = some stage) (hcreated : stage ≠ .created)
    (hblocked : ∀ j, stage ≠ .blocked j) : k ≠ i := by
  rintro rfl
  obtain ⟨hsame, -⟩ | ⟨t, hsame, -, -⟩ := h.created_or_blocked
  · rw [hstage] at hsame
    exact hcreated (Option.some.inj hsame)
  · rw [hstage] at hsame
    exact hblocked _ (Option.some.inj hsame)

end Ready

/-! ## What helping comes to -/

/-- What happens beside a call and its task: it leaves them alone, but for the pool. -/
structure Aside (i : Nat) (s : Service) (a : Action) (s' : Service) : Prop where
  tasks : s'.tasks = s.tasks
  stage : s'.stage? i = s.stage? i
  files : s'.files = s.files
  caller : a.actor? ≠ some (.caller i)
  task : ∀ j, a.actor? ≠ some (.task j)
  pool : (s'.pool = s.pool ∧ ∀ x, a.actor? ≠ some (.pool x)) ∨
    ∃ act, Pool.Step s.pool act s'.pool ∧ ∀ x, a.actor? = some (.pool x) → act.actor? = some x

/-- What nobody does who goes on with a call, a task or a job. -/
theorem aside_of_actor? (hactor : a.actor? = none) (htasks : s'.tasks = s.tasks)
    (hstage : s'.stage? i = s.stage? i) (hfiles : s'.files = s.files)
    (hpool : s'.pool = s.pool ∨ ∃ act, Pool.Step s.pool act s'.pool) : Aside i s a s' := by
  refine ⟨htasks, hstage, hfiles, by simp [hactor], by simp [hactor], ?_⟩
  exact hpool.imp (fun hsame => ⟨hsame, by simp [hactor]⟩)
    fun ⟨act, hact⟩ => ⟨act, hact, by simp [hactor]⟩

/-- What the caller of another call does. -/
theorem aside_of_poll {k : Nat} (hne : k ≠ i) (htasks : s'.tasks = s.tasks)
    (hstage : s'.stage? i = s.stage? i) (hfiles : s'.files = s.files)
    (hpool : s'.pool = s.pool ∨ ∃ act, Pool.Step s.pool act s'.pool) : Aside i s (.poll k) s' := by
  have hactor : (Action.poll k).actor? = some (.caller k) := rfl
  refine ⟨htasks, hstage, hfiles, by simp [hactor, hne], by simp [hactor], ?_⟩
  exact hpool.imp (fun hsame => ⟨hsame, by simp [hactor]⟩)
    fun ⟨act, hact⟩ => ⟨act, hact, by simp [hactor]⟩

namespace Ready

theorem remaining_lt_of_begin (h : Ready c i s) (hstage : s.stage? i = some .created)
    {task : Document.Task} (htasks : s'.tasks = s.tasks ++ [.working task]) :
    s'.remaining < s.remaining := by
  obtain ⟨-, hnil⟩ | ⟨t, hblocked, -⟩ := h.created_or_blocked
  · rw [hnil] at htasks
    rw [remaining, remaining, hnil, htasks]
    exact Prod.Lex.toLex_lt_toLex.mpr (.inl (Nat.lt_succ_self 4))
  · rw [hstage] at hblocked
    cases hblocked

theorem tasks_eq (h : Ready c i s) {j : Nat} {t : TaskStage} (htask : s.tasks[j]? = some t) :
    j = 0 ∧ s.tasks = [t] := by
  obtain ⟨-, hnil⟩ | ⟨u, -, htasks, -⟩ := h.created_or_blocked
  · rw [hnil] at htask
    cases htask
  · rw [htasks] at htask ⊢
    cases j with
    | zero =>
      cases htask
      exact ⟨rfl, rfl⟩
    | succ j => cases htask

end Ready

theorem tasks_setTask {t : TaskStage} (htasks : s.tasks = [t]) (t' : TaskStage) :
    (s.setTask 0 t').tasks = [t'] := by
  rw [setTask, htasks]
  rfl

/-- A task that goes on to a later stage is nearer to its end. -/
theorem remaining_lt_of_distance {t t' : TaskStage} (htasks : s.tasks = [t])
    (htasks' : s'.tasks = [t']) (hlt : t'.distance < t.distance) : s'.remaining < s.remaining := by
  have hfirst : ∀ {s : Service} {t : TaskStage}, s.tasks = [t] →
      (ofLex s.remaining).1 = t.distance := by
    intro s t htasks
    rw [remaining, htasks]
    cases t <;> rfl
  refine Prod.Lex.lt_iff.mpr (.inl ?_)
  rw [hfirst htasks, hfirst htasks']
  exact hlt

theorem remaining_lt_of_task {task task' : Document.Task} (htasks : s.tasks = [.working task])
    (htasks' : s'.tasks = [.ofTask task'])
    (hstep : task.step? s.pool s.files = some (task', s'.pool, s'.files)) :
    s'.remaining < s.remaining := by
  unfold TaskStage.ofTask at htasks'
  split at htasks'
  · exact remaining_lt_of_distance htasks htasks' (Nat.lt_succ_self 3)
  · rw [remaining, remaining, htasks, htasks']
    refine Prod.Lex.toLex_lt_toLex.mpr (.inr ⟨rfl, Site.rank_lt_of_task ?_⟩)
    rw [Site.step?, site, hstep]
    rfl

/-- Every step is the task's or the caller's and brings the call nearer, or happens aside. -/
theorem Ready.aside_or_lt (h : Ready c i s) (h' : Ready c i s') (hstep : Step s a s') :
    Aside i s a s' ∨ s'.remaining < s.remaining := by
  cases hstep with
  | call spec _ =>
    obtain ⟨x, hx, -⟩ := h.active
    have hlt := (List.getElem?_eq_some_iff.mp hx).1
    refine .inl (aside_of_actor? rfl rfl ?_ rfl (.inl rfl))
    rw [stage?_append, if_neg (Nat.ne_of_lt hlt)]
  | refuse hcall | enter hcall | collect hcall | join hcall =>
    have hne := h'.ne_of_stage (stage?_setCall_self hcall _) nofun nofun
    exact .inl (aside_of_poll hne rfl (stage?_setCall_ne hcall hne _) rfl (.inl rfl))
  | post hcall =>
    have hne := h'.ne_of_stage (stage?_setCall_self hcall _) nofun nofun
    exact .inl (aside_of_poll hne rfl (stage?_setCall_ne hcall hne _) rfl
      (.inr ⟨_, .post _ _ h.shared.serving⟩))
  | begin hcall =>
    obtain rfl := h.sole.other _ _ hcall rfl
    exact .inr (h.remaining_lt_of_begin (stage?_of_getElem? hcall) rfl)
  | giveUp hcall =>
    have hne := h'.ne_of_stage (stage?_setCall_self hcall _) nofun nofun
    exact .inl (aside_of_actor? rfl rfl (stage?_setCall_ne hcall hne _) rfl (.inl rfl))
  | forget hcall hpool =>
    have hne := h'.ne_of_stage (stage?_setCall_self hcall _) nofun nofun
    exact .inl (aside_of_actor? rfl rfl (stage?_setCall_ne hcall hne _) rfl (.inr ⟨_, hpool⟩))
  | work htask hstep =>
    obtain ⟨rfl, htasks⟩ := h.tasks_eq htask
    exact .inr (remaining_lt_of_task htasks (tasks_setTask htasks _) hstep)
  | letGo htask =>
    obtain ⟨rfl, htasks⟩ := h.tasks_eq htask
    exact .inr (remaining_lt_of_distance htasks (tasks_setTask htasks _) (show 1 < 3 by decide))
  | taskClose htask =>
    obtain ⟨rfl, htasks⟩ := h.tasks_eq htask
    exact .inr (remaining_lt_of_distance htasks (tasks_setTask htasks _) (show 2 < 3 by decide))
  -- only the last who holds the pool waits for its workers, and the service holds it
  | taskWait htask => exact absurd (h.tasks_eq htask).2 h.ne_closing
  | taskLeave htask =>
    obtain ⟨rfl, htasks⟩ := h.tasks_eq htask
    exact .inr (remaining_lt_of_distance htasks (tasks_setTask htasks _) Nat.one_pos)
  | worker hact hpool =>
    have hactor := actor?_of_pool? hact
    refine .inl ⟨rfl, rfl, rfl, ?_, ?_, .inr ⟨_, hpool, ?_⟩⟩ <;> simp [hactor]
  | notifyGate | beginShutdown | beginDrop | drained | waiter | handleLeave =>
    exact .inl (aside_of_actor? rfl rfl rfl rfl (.inl rfl))
  | handleClose _ _ hpool | handleWait _ _ hpool =>
    exact .inl (aside_of_actor? rfl rfl rfl rfl (.inr ⟨_, hpool⟩))

namespace Aside

/-- Only a task at its lines is brought nearer by what happens in the pool. -/
theorem remaining_eq (haside : Aside i s a s')
    (hidle : ∀ task rest, s.tasks ≠ .working task :: rest) : s'.remaining = s.remaining := by
  rw [remaining, remaining, haside.tasks]
  split
  · rfl
  · rename_i task rest htasks
    exact absurd htasks (hidle task rest)
  · rfl

/-- What happens aside is a move beside the task. -/
theorem helps_of_site (haside : Aside i s a s') (h : Ready c i s) {task : Document.Task}
    (htasks : s.tasks = [.working task]) {actor : Site.Actor}
    (hhelps : (s.site task).Helps actor) :
    s'.remaining < s.remaining ∨ s'.remaining = s.remaining ∧ s'.Helps i (.ofSite actor) ∧
      a.actor? ≠ some (.ofSite actor) := by
  obtain ⟨hready, -⟩ := h.ready_site htasks
  have htasks' := haside.tasks.trans htasks
  have hremaining : s.remaining = toLex (4, (s.site task).rank) := by
    rw [remaining, htasks]
  have hremaining' : s'.remaining = toLex (4, (s'.site task).rank) := by
    rw [remaining, htasks']
  rw [hremaining, hremaining']
  rcases haside.pool with ⟨hpool, hactor⟩ | ⟨act, hact, hactor⟩
  · have hsame : s'.site task = s.site task := by rw [site, hpool, haside.files, site]
    refine .inr ⟨by rw [hsame], .work htasks' (hsame ▸ hhelps), ?_⟩
    cases actor with
    | task => exact haside.task 0
    | pool x => exact hactor x
  · have hmove : (s.site task).step? (.pool act) = some (s'.site task) := by
      rw [Site.step?, site, Pool.step?_of_step hact, site, haside.files]
      rfl
    rcases hready.helps_step c.size_pos hhelps hmove with hlt | ⟨heq, hstays, hother⟩
    · exact .inl (Prod.Lex.toLex_lt_toLex.mpr (.inr ⟨rfl, hlt⟩))
    · refine .inr ⟨by rw [heq], .work htasks' hstays, ?_⟩
      cases actor with
      | task => exact haside.task 0
      | pool x =>
        intro hsame
        exact hother (by rw [Site.Move.actor?, hactor x hsame]; rfl)

/-- What happens aside brings the call nearer, or whoever helps goes on helping and has not
acted. -/
theorem helps (haside : Aside i s a s') (h : Ready c i s) {actor : Actor}
    (hhelps : s.Helps i actor) :
    s'.remaining < s.remaining ∨
      s'.remaining = s.remaining ∧ s'.Helps i actor ∧ a.actor? ≠ some actor := by
  cases hhelps with
  | look hstage =>
    refine .inr ⟨haside.remaining_eq ?_, .look (haside.stage.trans hstage), haside.caller⟩
    obtain ⟨-, hnil⟩ | ⟨t, hblocked, -⟩ := h.created_or_blocked
    · simp [hnil]
    · rw [hstage] at hblocked
      cases hblocked
  | work htasks hhelps => exact haside.helps_of_site h htasks hhelps
  | letGo htasks =>
    exact .inr ⟨haside.remaining_eq (by simp [htasks]), .letGo (haside.tasks.trans htasks),
      haside.task 0⟩
  | leave htasks =>
    exact .inr ⟨haside.remaining_eq (by simp [htasks]), .leave (haside.tasks.trans htasks),
      haside.task 0⟩
  | collect hstage htasks =>
    exact .inr ⟨haside.remaining_eq (by simp [htasks]),
      .collect (haside.stage.trans hstage) (haside.tasks.trans htasks), haside.caller⟩

end Aside

/-! ## Fair runs -/

namespace Run

section Liveness

variable {start : Service} {loader : Model.Loader} {settings : Settings} {x : Call} (r : Run start)
  (h : Reachable loader c.files settings Follows start) (hmodel : start.model = c.model)
  (hsize : settings.poolSize.toNat = c.size)
  (hscores : c.request.withScores = c.request.options.params.withScores)
  (hx : start.calls[i]? = some x) (hspec : x.spec = callFor c) (honly : start.OnlyDocument i)
  (hspares : r.Spares i)

include h hmodel hsize hscores hx hspec honly hspares

/-- A call for the document of a scene is ready to be brought nearer until it returns. -/
theorem ready (n : ℕ)
    (hactive : ∃ x, (r.service n).calls[i]? = some x ∧ x.isActive = true) :
    Ready c i (r.service n) := by
  have hreach := r.reachable h n
  have hsame := (r.model_eq n).trans hmodel
  have hsole : Sole c i (r.service n) := by
    refine ⟨fun x' hx' => ?_, r.onlyDocument hspares honly n⟩
    obtain ⟨x'', hx'', hspec'⟩ := r.exists_call hx n
    rw [hx'] at hx''
    cases hx''
    rw [hspec', hspec]
  exact {
    held := hsize ▸ hreach.held
    counted := hreach.counted
    custody := hreach.custody
    obeys := hsame ▸ hreach.obeys
    sole := hsole
    model := hsame
    dispatched := hreach.dispatched hsame hsize hscores hsole
    active := hactive }

/-- In a run in which nobody is passed over for ever a call for a document returns, if it is
not given up. -/
theorem exists_returned (hlethal : ∀ b o, c.model b o ≠ .panicked .lethal) (hfair : r.Fair)
    (hstage : x.stage ≠ .abandoned) :
    ∃ n reply, (r.service n).stage? i = some (.returned reply) := by
  have hready := r.ready h hmodel hsize hscores hx hspec honly hspares
  obtain ⟨n, hidle⟩ : ∃ n, ¬ ∃ x, (r.service n).calls[i]? = some x ∧ x.isActive = true := by
    refine Document.exists_of_helps (fun n => (r.service n).remaining)
      (fun n => (r.service n).Helps i)
      (fun n actor => ∃ a, r.action n = some a ∧ a.actor? = some actor) ?_ ?_ ?_
    · intro n hgoing
      exact (hready n (not_not.mp hgoing)).exists_helps hlethal
    · intro n actor hgoing hgoing' hhelps hlow
      cases haction : r.action n with
      | none =>
        rw [r.rest n haction]
        exact ⟨rfl, hhelps, fun ⟨a, ha, _⟩ => by cases ha⟩
      | some a =>
        have hn := hready n (not_not.mp hgoing)
        have haside := (hn.aside_or_lt (hready (n + 1) (not_not.mp hgoing'))
          (step_of_step? (r.next n a haction).2)).resolve_right hlow
        obtain ⟨heq, hstays, hother⟩ := (haside.helps hn hhelps).resolve_left hlow
        refine ⟨heq, hstays, fun ⟨a', ha', hactor⟩ => ?_⟩
        cases ha'
        exact hother hactor
    · intro n actor hstays
      obtain ⟨k, a, hk, haction, hactor⟩ := hfair actor n fun k hk =>
        (hready k (not_not.mp (hstays k hk).1)).canAct (hstays k hk).2
      exact ⟨k, hk, a, haction, hactor⟩
  obtain ⟨x', hx', -⟩ := r.exists_call hx n
  have hstage' := stage?_of_getElem? hx'
  cases hreturned : x'.stage with
  | returned reply => exact ⟨n, reply, hreturned ▸ hstage'⟩
  | abandoned => exact absurd hreturned (r.ne_abandoned hspares hx hstage n x' hx')
  | _ => exact absurd ⟨x', hx', by rw [Call.isActive, hreturned]⟩ hidle

end Liveness

end Run

end DecodingDesk.Service
