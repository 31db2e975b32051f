import DecodingDesk.Proofs.Document.Frame
import DecodingDesk.Proofs.Service.Errand
import DecodingDesk.Proofs.Service.Shutdown
/-!
# The source of a document

A call for a document touches no file but the one that its output path creates.  So the file
that it reads stays as it is, however the call ends, unless the output path leads to the same
place: then creating the output empties the source before it is read.
-/

namespace DecodingDesk.Service

open Document (Task)

variable {s s' : Service} {a : Action} {i j : Nat} {moves : List Move} {task? : Option Nat}
  {input output : String}

/-! ## The step of a task among others -/

/-- Whether a task, as long as it works, has some property. -/
def TaskStage.Works (P : Task → Prop) : TaskStage → Prop
  | .working task => P task
  | _ => True

theorem TaskStage.works_ofTask {P : Task → Prop} {task : Task}
    (h : P task ∨ ∃ r, task.stage = .ended r) : (TaskStage.ofTask task).Works P := by
  unfold TaskStage.ofTask
  split
  · trivial
  · rename_i hresult
    rcases h with h | ⟨r, hstage⟩
    · exact h
    · rw [Task.result?, hstage] at hresult
      cases hresult

/-- What its work does to a task: a step on the document, or something that no file shows. -/
theorem Step.of_work (hstep : Step s (.work j) s') {t : TaskStage} (htask : s.tasks[j]? = some t) :
    (∃ task task', t = .working task ∧ Task.Step task s.pool s.files task' s'.pool s'.files ∧
        s'.tasks[j]? = some (.ofTask task')) ∨
      s'.files = s.files ∧ ∃ t', s'.tasks[j]? = some t' ∧ ∀ P, t'.Works P := by
  have hset : ∀ {before : Service} (stage : TaskStage), before.tasks = s.tasks →
      (before.setTask j stage).tasks[j]? = some stage := by
    intro before stage htasks
    rw [setTask, htasks]
    exact List.getElem?_set_self (List.getElem?_eq_some_iff.mp htask).1
  cases hstep with
  | work hworking htaken =>
    rw [htask] at hworking
    cases hworking
    exact .inl ⟨_, _, rfl, Document.Task.step_of_step? htaken, hset _ rfl⟩
  | letGo | taskClose | taskLeave => exact .inr ⟨rfl, _, hset _ rfl, fun _ => trivial⟩
  | taskWait =>
    refine .inr ⟨rfl, _, hset _ rfl, fun _ => ?_⟩
    split <;> trivial
  | worker hact => cases hact

theorem Step.files_of_poll (hstep : Step s (.poll i) s') : s'.files = s.files := by
  cases hstep with
  | worker hact => cases hact
  | _ => rfl

/-- A call that begins a task tells it where its output goes. -/
theorem Step.begun_of_poll (hstep : Step s (.poll i) s') {c : Call} (hcall : s.calls[i]? = some c)
    {batchSize : Nat} {params : DecodingParams}
    (hspec : c.spec = .document input output batchSize params) (hbegun : s'.taskOf? i = some j) :
    ∃ task : Task, s'.tasks[j]? = some (.working task) ∧ task.request.output = output ∧
      task.stage.IsEarly := by
  have hset : ∀ {before : Service} {stage : CallStage}, before.calls = s.calls →
      (before.setCall i stage).taskOf? i = some j → stage = .blocked j := by
    intro before stage hcalls hj
    rw [← hcalls] at hcall
    rw [taskOf?_eq ((getElem?_setCall hcall stage i).trans (if_pos rfl))] at hj
    cases stage with
    | blocked => exact congrArg CallStage.blocked (Option.some.inj hj)
    | _ => cases hj
  cases hstep with
  | refuse | post | enter | collect | join => cases hset rfl hbegun
  | begin hx =>
    cases hset rfl hbegun
    rw [hcall] at hx
    cases hx
    cases hspec
    exact ⟨_, List.getElem?_concat_length, rfl, trivial⟩
  | worker hact => cases hact

/-- A call keeps what it is for. -/
theorem Errand.exists_call {Allows : Service → Action → Prop} {start : Service} {c : Call}
    (h : Errand Allows start i task? moves s) (hcall : start.calls[i]? = some c) :
    ∃ c', s.calls[i]? = some c' ∧ c'.spec = c.spec := by
  induction h with
  | start => exact ⟨c, hcall, rfl⟩
  | own _ _ _ hstep ih | other _ _ _ hstep ih =>
    obtain ⟨c', hc', hspec⟩ := ih
    obtain ⟨c'', hc'', hspec'⟩ := (step_of_step? hstep).exists_call hc'
    exact ⟨c'', hc'', hspec'.trans hspec⟩

/-! ## What a call has touched -/

/-- Whether the task with some number, as long as it works, has some property. -/
def TaskWorks (P : Task → Prop) (j : Nat) (s : Service) : Prop :=
  ∃ t, s.tasks[j]? = some t ∧ t.Works P

/-- What a call for a document has touched: nothing before it has created its output, and then
no place but that of the output. -/
inductive Footprint (output : String) : Option Nat → List Move → Service → Prop where
  | nothing {task? : Option Nat} {moves : List Move} {s : Service}
      (hmoves : ∀ m ∈ moves, m.after.files = m.before.files)
      (htask : ∀ j, task? = some j →
        s.TaskWorks (fun task => task.request.output = output ∧ task.stage.IsEarly) j) :
      Footprint output task? moves s
  | output {j : Nat} {moves : List Move} {s : Service} {creating : Move}
      {opened : DecodingDesk.Handle} (hmem : creating ∈ moves)
      (hcreate : creating.before.files.create output = .ok (opened, creating.after.files))
      (hmoves : ∀ m ∈ moves, Files.Touches opened.place m.before.files m.after.files)
      (htask : s.TaskWorks (fun task => task.stage.place? = some opened.place) j) :
      Footprint output (some j) moves s

theorem forall_mem_concat {P : Move → Prop} {m : Move} (h : ∀ m ∈ moves, P m) (hm : P m) :
    ∀ m' ∈ moves ++ [m], P m' :=
  List.forall_mem_append.mpr ⟨h, List.forall_mem_singleton.mpr hm⟩

theorem TaskWorks.of_ne_work {P : Task → Prop} (h : s.TaskWorks P j) (hstep : Step s a s')
    (hwork : a ≠ .work j) : s'.TaskWorks P j := by
  obtain ⟨t, htask, ht⟩ := h
  exact ⟨t, hstep.task_of_ne_work hwork htask, ht⟩

theorem Footprint.other (h : Footprint output task? moves s) (hother : ¬ a.IsOwn i task?)
    (hstep : Step s a s') : Footprint output task? moves s' := by
  have hwork : ∀ {j : Nat}, task? = some j → a ≠ .work j :=
    fun hj hwork => hother (.inr ⟨_, hj, hwork⟩)
  cases h with
  | nothing hmoves htask =>
    exact .nothing hmoves fun j hj => (htask j hj).of_ne_work hstep (hwork hj)
  | output hmem hcreate hmoves htask =>
    exact .output hmem hcreate hmoves (htask.of_ne_work hstep (hwork rfl))

theorem Footprint.poll (h : Footprint output task? moves s) (hstep : Step s (.poll i) s')
    (hbegun : ∀ j, s'.taskOf? i = some j →
      s'.TaskWorks (fun task => task.request.output = output ∧ task.stage.IsEarly) j) :
    Footprint output (task?.or (s'.taskOf? i)) (moves ++ [⟨s, s'⟩]) s' := by
  have hfiles := hstep.files_of_poll
  cases h with
  | nothing hmoves htask =>
    refine .nothing (forall_mem_concat hmoves hfiles) ?_
    intro j hj
    rcases Option.or_eq_some_iff.mp hj with hj | ⟨-, hj⟩
    · exact (htask j hj).of_ne_work hstep nofun
    · exact hbegun j hj
  | output hmem hcreate hmoves htask =>
    exact .output (List.mem_append_left _ hmem) hcreate
      (forall_mem_concat hmoves (.of_eq hfiles)) (htask.of_ne_work hstep nofun)

theorem Footprint.work (h : Footprint output (some j) moves s) (hstep : Step s (.work j) s') :
    Footprint output (some j) (moves ++ [⟨s, s'⟩]) s' := by
  cases h with
  | nothing hmoves htask =>
    obtain ⟨t, ht, hworks⟩ := htask j rfl
    obtain ⟨task, task', rfl, htaken, ht'⟩ | ⟨hfiles, t', ht', hworks'⟩ := hstep.of_work ht
    · obtain ⟨houtput, hearly⟩ : task.request.output = output ∧ task.stage.IsEarly := hworks
      cases htaken.alters with
      | nothing hfiles _ hnext =>
        refine .nothing (forall_mem_concat hmoves hfiles) ?_
        rintro _ ⟨⟩
        refine ⟨_, ht', TaskStage.works_ofTask (hnext.imp_left fun hnext => ?_)⟩
        exact ⟨htaken.request_eq ▸ houtput, hnext⟩
      | @create opened _ hcreate hplace =>
        rw [houtput] at hcreate
        -- the moves so far have touched nothing, and so no place but the one just created
        have hbefore : ∀ m ∈ moves, Files.Touches opened.place m.before.files m.after.files :=
          fun m hm => .of_eq (hmoves m hm)
        exact .output (List.mem_append_right _ (List.mem_singleton_self _)) hcreate
          (forall_mem_concat hbefore (Files.touches_create hcreate))
          ⟨_, ht', TaskStage.works_ofTask (.inl hplace)⟩
      | output hplace =>
        rw [hearly.place?_eq_none] at hplace
        cases hplace
    · refine .nothing (forall_mem_concat hmoves hfiles) ?_
      rintro _ ⟨⟩
      exact ⟨t', ht', hworks' _⟩
  | @output _ _ _ creating opened hmem hcreate hmoves htask =>
    obtain ⟨t, ht, hworks⟩ := htask
    have hextend : ∀ {t' : TaskStage}, s'.tasks[j]? = some t' →
        Files.Touches opened.place s.files s'.files →
        t'.Works (fun task => task.stage.place? = some opened.place) →
        Footprint output (some j) (moves ++ [⟨s, s'⟩]) s' := fun ht' htouches hworks' =>
      .output (List.mem_append_left _ hmem) hcreate (forall_mem_concat hmoves htouches)
        ⟨_, ht', hworks'⟩
    obtain ⟨task, task', rfl, htaken, ht'⟩ | ⟨hfiles, t', ht', hworks'⟩ := hstep.of_work ht
    · have hopened : task.stage.place? = some opened.place := hworks
      cases htaken.alters with
      | nothing _ hearly | create hearly =>
        rw [hearly.place?_eq_none] at hopened
        cases hopened
      | output hplace htouches hnext =>
        obtain rfl := Option.some.inj (hplace.symm.trans hopened)
        exact hextend ht' htouches (TaskStage.works_ofTask hnext)
    · exact hextend ht' (.of_eq hfiles) (hworks' _)

theorem Errand.footprint {Allows : Service → Action → Prop} {start : Service} {batchSize : Nat}
    {params : DecodingParams} (h : Errand Allows start i task? moves s)
    (hcall : start.calls[i]? = some { spec := .document input output batchSize params }) :
    Footprint output task? moves s := by
  induction h with
  | start => exact .nothing (List.forall_mem_nil _) nofun
  | own h hown _ hstep ih =>
    have hstep := step_of_step? hstep
    rcases hown with rfl | ⟨j, rfl, rfl⟩
    · obtain ⟨c, hc, hspec⟩ := h.exists_call hcall
      refine ih.poll hstep fun j hj => ?_
      obtain ⟨task, htask, hearly⟩ := hstep.begun_of_poll hc hspec hj
      exact ⟨_, htask, hearly⟩
    · exact ih.work hstep
  | other _ hother _ hstep ih => exact ih.other hother (step_of_step? hstep)

/-! ## Moves that nobody disturbs -/

/-- Whether moves lead from files to files and nobody else touches them in between. -/
def Undisturbed : Files → List Move → Files → Prop
  | fs, [], fs' => fs' = fs
  | fs, m :: rest, fs' => m.before.files = fs ∧ Undisturbed m.after.files rest fs'

theorem Undisturbed.eq {fs fs' : Files} (h : Undisturbed fs moves fs')
    (hmoves : ∀ m ∈ moves, m.after.files = m.before.files) : fs' = fs := by
  induction moves generalizing fs with
  | nil => exact h
  | cons m rest ih =>
    obtain ⟨hbefore, hrest⟩ := h
    obtain ⟨hm, hmoves⟩ := List.forall_mem_cons.mp hmoves
    rw [ih hrest hmoves, hm, hbefore]

/-- Moves that touch one place do so together, and find only that place touched. -/
theorem Undisturbed.touches {fs fs' : Files} {place : Place} (h : Undisturbed fs moves fs')
    (hmoves : ∀ m ∈ moves, Files.Touches place m.before.files m.after.files) :
    Files.Touches place fs fs' ∧ ∀ m ∈ moves, Files.Touches place fs m.before.files := by
  induction moves generalizing fs with
  | nil =>
    obtain rfl : fs' = fs := h
    exact ⟨.refl _ _, List.forall_mem_nil _⟩
  | cons m rest ih =>
    obtain ⟨rfl, hrest⟩ := h
    obtain ⟨hm, hmoves⟩ := List.forall_mem_cons.mp hmoves
    obtain ⟨hlast, hbetween⟩ := ih hrest hmoves
    exact ⟨hm.trans hlast,
      List.forall_mem_cons.mpr ⟨.refl _ _, fun m' hm' => hm.trans (hbetween m' hm')⟩⟩

/-! ## What becomes of the source -/

/-- What a call for a document leaves of the file that it reads, in the course of its moves. -/
structure SourceKept (input output : String) (start : Service) (moves : List Move)
    (s : Service) : Prop where
  /-- Its moves touch no file, or one of them creates the output and all touch only the place of
  the output, so that any other file that the input path names is the same after each. -/
  each : (∀ m ∈ moves, m.after.files = m.before.files) ∨
    ∃ creating ∈ moves, ∃ opened,
      creating.before.files.create output = .ok (opened, creating.after.files) ∧
      ∀ m ∈ moves, Files.Touches opened.place m.before.files m.after.files ∧
        ∀ source node, m.before.files.find input = .ok (source, node) → source ≠ opened.place →
          m.after.files.find input = .ok (source, node)
  /-- If nobody else touches files meanwhile, the input path names what it named before, unless
  the output path leads to the same place and creating the output has emptied it. -/
  whole : Undisturbed start.files moves s.files →
    ∀ source node, start.files.find input = .ok (source, node) →
      s.files.find input = .ok (source, node) ∨
        start.files.target output = .ok source ∧ ∃ creating ∈ moves, ∃ opened,
          creating.before.files.create output = .ok (opened, creating.after.files) ∧
          opened.place = source ∧ creating.after.files.contentAt source = .ok []

theorem Footprint.sourceKept {start : Service} (h : Footprint output task? moves s) :
    SourceKept input output start moves s := by
  cases h with
  | nothing hmoves =>
    refine ⟨.inl hmoves, fun hundisturbed source node hfind => .inl ?_⟩
    rw [hundisturbed.eq hmoves]
    exact hfind
  | @output _ _ _ creating opened hmem hcreate hmoves =>
    refine ⟨.inr ⟨creating, hmem, opened, hcreate, fun m hm => ⟨hmoves m hm, ?_⟩⟩, ?_⟩
    · exact fun source node hfind hne => (hmoves m hm).find hfind hne
    · intro hundisturbed source node hfind
      obtain ⟨hall, hbefore⟩ := hundisturbed.touches hmoves
      by_cases hsource : source = opened.place
      · subst hsource
        obtain ⟨htarget, -⟩ := Files.create_cases hcreate
        exact .inr ⟨(hbefore creating hmem).symm.target htarget, creating, hmem, opened, hcreate,
          rfl, Files.contentAt_created hcreate⟩
      · exact .inl (hall.find hfind hsource)

/-- A call for a document keeps the file that it reads, unless that is its output. -/
theorem Errand.source_kept {Allows : Service → Action → Prop} {start : Service} {batchSize : Nat}
    {params : DecodingParams}
    (hcall : start.calls[i]? = some { spec := .document input output batchSize params })
    (h : Errand Allows start i task? moves s) : SourceKept input output start moves s :=
  (h.footprint hcall).sourceKept

/-! ### A document of one line -/

theorem not_isOwn_of_pool? {act : Pool.Action} (hact : a.pool? = some act) :
    ¬ a.IsOwn i task? := by
  rintro (rfl | ⟨j, -, rfl⟩) <;> cases hact

theorem Errand.work {start : Service} (h : Errand Follows start i (some j) moves s)
    (hstep : s.step? (.work j) = some s') :
    Errand Follows start i (some j) (moves ++ [⟨s, s'⟩]) s' :=
  h.own (.inr ⟨j, rfl, rfl⟩) trivial hstep

/-- A service with a call for a document of one line. -/
def copying (output : String) : Service :=
  { deskService with calls := [{ spec := .document "in" output 1 {} }] }

theorem source_kept_apart : ∃ moves s, Errand Follows (copying "out") 0 (some 0) moves s ∧
    s.calls[0]? =
      some { spec := .document "in" "out" 1 {}, stage := .returned (.ok (.lines 1)) } ∧
    s.files.read "out" = .ok (Text.encode "c\n") ∧
    s.files.find "in" = .ok (["work", "in"], .file (Text.encode "c\n")) := by
  have hmade : Errand Follows (copying "out") 0 none [] (copying "out") := .start
  have hbegun := hmade.own (a := .poll 0) (.inl rfl) trivial rfl
  have hread := ((((hbegun.work rfl).work rfl).work rfl).work rfl).work rfl
  have hnotified := hread.other (a := .notifyWorker none) (not_isOwn_of_pool? rfl) trivial rfl
  have htaken := hnotified.other (a := .look 0) (not_isOwn_of_pool? rfl) trivial rfl
  have hanswered := htaken.other (a := .finish 0 (Model.Echo.model {} [["c"]] .default))
    (not_isOwn_of_pool? rfl) (by rintro job ⟨⟩; rfl) rfl
  have hleft := (((hanswered.work rfl).work rfl).work rfl).work rfl
  have hreturned := hleft.own (a := .poll 0) (.inl rfl) trivial rfl
  have hkept : SourceKept "in" "out" (copying "out") _ _ := hreturned.source_kept rfl
  have hwhole := hkept.whole ⟨rfl, rfl, rfl, rfl, rfl, rfl, rfl, rfl, rfl, rfl, rfl, rfl⟩
  have hapart : (copying "out").files.target "out" ≠ .ok ["work", "in"] := by decide
  have hin := (hwhole _ (.file (Text.encode "c\n")) rfl).resolve_right fun h => hapart h.1
  exact ⟨_, _, hreturned, rfl, rfl, hin⟩

/-- A document that is written to where it is read is lost, and the call succeeds. -/
theorem source_emptied : ∃ start moves s,
    Reachable (fun _ => .ok (Model.Echo.model {})) oneLine deskSettings Follows start ∧
      start.calls[0]? = some { spec := .document "in" "./in" 1 {} } ∧
      Errand Follows start 0 (some 0) moves s ∧ Undisturbed start.files moves s.files ∧
      s.calls[0]? =
        some { spec := .document "in" "./in" 1 {}, stage := .returned (.ok (.lines 0)) } ∧
      start.files.read "in" = .ok (Text.encode "c\n") ∧ s.files.read "in" = .ok [] := by
  have hcreated : Reachable (fun _ => .ok (Model.Echo.model {})) oneLine deskSettings Follows
      deskService := .start rfl
  have hreach : Reachable (fun _ => .ok (Model.Echo.model {})) oneLine deskSettings Follows
      (copying "./in") := hcreated.step (.call _) trivial rfl
  have hmade : Errand Follows (copying "./in") 0 none [] (copying "./in") := .start
  have hbegun := hmade.own (a := .poll 0) (.inl rfl) trivial rfl
  have hended := ((((hbegun.work rfl).work rfl).work rfl).work rfl).work rfl
  have hleft := (hended.work rfl).work rfl
  have hreturned := hleft.own (a := .poll 0) (.inl rfl) trivial rfl
  exact ⟨_, _, _, hreach, rfl, hreturned, ⟨rfl, rfl, rfl, rfl, rfl, rfl, rfl, rfl, rfl, rfl⟩, rfl,
    rfl, rfl⟩

end DecodingDesk.Service
