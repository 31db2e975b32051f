import DecodingDesk.Proofs.Document.Window
import DecodingDesk.Proofs.Pool.Closing
/-!
# How a document task ends

A task is over before it has created its output, or because the room for a chunk cannot be
allocated, or for one of a few causes while it reads and writes.  In the last case the output
has received what was written for the chunks waited for, cut off where it is full; so it can be
told from the cause and those chunks what is there, whatever was buffered at which moment.
-/

namespace DecodingDesk.Document

open Model (Output)
open Text (Bytes)

variable {request : Request} {files : Files} {t t' : Task} {p p' : Pool} {fs : Files}

/-- What is written for a job: nothing unless it has been answered. -/
def Request.renderingFor (r : Request) (p : Pool) (job : Job) : Bytes :=
  match p.future? job.id with
  | some (.ok os) => rendering r.withScores os
  | _ => []

/-- What an output should hold for some chunks, after what opening it left there. -/
def Request.goal (r : Request) (files : Files) (place : Place) (p : Pool)
    (waited : List Job) : Bytes :=
  files.kept place ++ waited.flatMap (r.renderingFor p)

theorem Request.goal_concat (r : Request) (files : Files) (place : Place) (p : Pool)
    (waited : List Job) (job : Job) :
    r.goal files place p (waited ++ [job]) =
      r.goal files place p waited ++ r.renderingFor p job := by
  rw [goal, goal, List.flatMap_append, List.flatMap_singleton, List.append_assoc]

/-! ## What others do to the pool -/

/-- What is settled in one pool is settled alike in the other. -/
def Keeps (p p' : Pool) : Prop :=
  ∀ ⦃id : Nat⦄ ⦃reply : Pool.Reply⦄, p.future? id = some reply → p'.future? id = some reply

/-- Whether some jobs have been answered without an error. -/
def Answered (p : Pool) (jobs : List Job) : Prop :=
  ∀ job ∈ jobs, ∃ os, p.future? job.id = some (.ok os)

/-- Whether it is settled what becomes of some jobs. -/
def Settled (p : Pool) (jobs : List Job) : Prop :=
  ∀ job ∈ jobs, ∃ reply, p.future? job.id = some reply

theorem Answered.settled {jobs : List Job} (h : Answered p jobs) : Settled p jobs := by
  intro job hj
  obtain ⟨os, hos⟩ := h job hj
  exact ⟨_, hos⟩

theorem Answered.of_keeps {jobs : List Job} (h : Answered p jobs) (hkeeps : Keeps p p') :
    Answered p' jobs := by
  intro job hj
  obtain ⟨os, hos⟩ := h job hj
  exact ⟨os, hkeeps hos⟩

theorem Answered.concat {jobs : List Job} {job : Job} {os : List Output} (h : Answered p jobs)
    (hfuture : p.future? job.id = some (.ok os)) : Answered p (jobs ++ [job]) :=
  List.forall_mem_append.mpr ⟨h, List.forall_mem_singleton.mpr ⟨os, hfuture⟩⟩

theorem Settled.concat {jobs : List Job} {job : Job} {reply : Pool.Reply} (h : Settled p jobs)
    (hfuture : p.future? job.id = some reply) : Settled p (jobs ++ [job]) :=
  List.forall_mem_append.mpr ⟨h, List.forall_mem_singleton.mpr ⟨reply, hfuture⟩⟩

theorem Settled.goal_eq {jobs : List Job} (h : Settled p jobs) (hkeeps : Keeps p p')
    (place : Place) : request.goal files place p' jobs = request.goal files place p jobs := by
  rw [Request.goal, Request.goal]
  congr 1
  apply List.flatMap_congr
  intro job hj
  obtain ⟨reply, hreply⟩ := h job hj
  rw [Request.renderingFor, Request.renderingFor, hkeeps hreply, hreply]

/-- Whether some replies, one for each chunk, say what comes of those that have been posted. -/
def Foretells (p : Pool) (posted : List Job) (replies : List Pool.Reply) : Prop :=
  ∀ (k : Nat) (job : Job) (reply : Pool.Reply), posted[k]? = some job →
    p.future? job.id = some reply → replies[k]? = some reply

theorem Foretells.cons {job : Job} {rest : List Job} {reply : Pool.Reply}
    {replies : List Pool.Reply} (h : Foretells p (job :: rest) replies)
    (hfuture : p.future? job.id = some reply) :
    ∃ others, replies = reply :: others ∧ Foretells p rest others := by
  have hfirst := h 0 job reply rfl hfuture
  cases replies with
  | nil => cases hfirst
  | cons first others =>
    cases hfirst
    exact ⟨others, rfl, fun k => h (k + 1)⟩

/-! ## The ways to end -/

/-- Why a task is over before its output is created. -/
inductive Refusal (request : Request) (files : Files) : Except Failure Nat → Prop where
  | zeroBatchSize (hzero : request.batchSize = 0) :
      Refusal request files (.error (.error (.options .zeroBatchSize)))
  | noSource {fault : IoFault} (hopen : files.openSource request.input = .error fault) :
      Refusal request files (.error (.error (.io request.input fault)))
  | noOutput {fault : IoFault} (hcreate : files.create request.output = .error fault) :
      Refusal request files (.error (.error (.io request.output fault)))

/-- Why a task is over that has created its output, with the chunks that it has waited for and
those that it leaves under way. -/
inductive Cause (request : Request) (files opened : Files) (place : Place) (p : Pool) :
    List Job → List Job → Except Failure Nat → Prop where
  | unreadable {source : Place} {fault : IoFault}
      (hopen : files.openSource request.input = .ok source)
      (hcontent : opened.contentAt source = .error fault) :
      Cause request files opened place p [] [] (.error (.error (.io request.input fault)))
  | invalid {waited pending : List Job} (hanswered : Answered p waited)
      (hlines : itemsOf? (request.lines files) = none) :
      Cause request files opened place p waited pending
        (.error (.error (.io request.input .invalidUtf8)))
  | failed {front pending : List Job} {job : Job} {e : EngineError} (hanswered : Answered p front)
      (hfuture : p.future? job.id = some (.error e)) :
      Cause request files opened place p (front ++ [job]) pending (.error (.error (.engine e)))
  | noSpace {waited pending : List Job} (hanswered : Answered p waited)
      (hlost : (files.fit place (request.goal files place p waited)).length <
        (request.goal files place p waited).length) :
      Cause request files opened place p waited pending
        (.error (.error (.io request.output .noSpace)))
  | complete {waited : List Job} (hanswered : Answered p waited)
      (hitems : itemsOf? (request.lines files) = some (waited.map Job.batch).flatten)
      (hwhole : files.fit place (request.goal files place p waited) =
        request.goal files place p waited) :
      Cause request files opened place p waited [] (.ok (request.lines files).length)

/-- How a task is over, and what its output has received. -/
inductive Ending (request : Request) (files : Files) (t : Task) (p : Pool) :
    Files → Except Failure Nat → Prop where
  | refused {r : Except Failure Nat} (hsent : t.sent = []) (hpending : t.pending = [])
      (h : Refusal request files r) : Ending request files t p files r
  /-- The room for a chunk cannot be allocated. -/
  | overflow {handle : Handle} {opened : Files} (hsent : t.sent = []) (hpending : t.pending = [])
      (hcreate : files.create request.output = .ok (handle, opened))
      (hfits : fitsMemory request.batchSize = false) :
      Ending request files t p opened (.error (.fault .capacityOverflow))
  | stopped {fs opened : Files} {handle : Handle} {waited : List Job} {r : Except Failure Nat}
      (hfits : fitsMemory request.batchSize = true)
      (hcreate : files.create request.output = .ok (handle, opened))
      (hsent : t.sent = waited ++ t.pending)
      (hreceived : fs.received handle.place =
        files.fit handle.place (request.goal files handle.place p waited))
      (hcause : Cause request files opened handle.place p waited t.pending r) :
      Ending request files t p fs r

section Cause

variable {opened : Files} {place : Place} {waited pending : List Job} {r : Except Failure Nat}

theorem Cause.settled (h : Cause request files opened place p waited pending r) :
    Settled p waited := by
  cases h with
  | unreadable => exact nofun
  | invalid hanswered | noSpace hanswered | complete hanswered => exact hanswered.settled
  | failed hanswered hfuture => exact hanswered.settled.concat hfuture

theorem Cause.of_keeps (h : Cause request files opened place p waited pending r)
    (hkeeps : Keeps p p') : Cause request files opened place p' waited pending r := by
  have hgoal : request.goal files place p' waited = request.goal files place p waited :=
    h.settled.goal_eq hkeeps place
  cases h with
  | unreadable hopen hcontent => exact .unreadable hopen hcontent
  | invalid hanswered hlines => exact .invalid (hanswered.of_keeps hkeeps) hlines
  | failed hanswered hfuture => exact .failed (hanswered.of_keeps hkeeps) (hkeeps hfuture)
  | noSpace hanswered hlost =>
    rw [← hgoal] at hlost
    exact .noSpace (hanswered.of_keeps hkeeps) hlost
  | complete hanswered hitems hwhole =>
    rw [← hgoal] at hwhole
    exact .complete (hanswered.of_keeps hkeeps) hitems hwhole

end Cause

theorem Ending.of_keeps {r : Except Failure Nat} (h : Ending request files t p fs r)
    (hkeeps : Keeps p p') : Ending request files t p' fs r := by
  cases h with
  | refused hsent hpending h => exact .refused hsent hpending h
  | overflow hsent hpending hcreate hfits => exact .overflow hsent hpending hcreate hfits
  | stopped hfits hcreate hsent hreceived hcause =>
    rw [← hcause.settled.goal_eq hkeeps] at hreceived
    exact .stopped hfits hcreate hsent hreceived (hcause.of_keeps hkeeps)

/-- The output holds nothing but a front of what is written for chunks waited for. -/
theorem Ending.exists_waited {r : Except Failure Nat} (h : Ending request files t p fs r) :
    ∃ waited, t.sent = waited ++ t.pending ∧ Settled p waited ∧
      (fs = files ∨ ∃ handle opened, files.create request.output = .ok (handle, opened) ∧
        fs.received handle.place <+: request.goal files handle.place p waited) := by
  cases h with
  | refused hsent hpending =>
    exact ⟨[], by rw [hsent, hpending, List.append_nil], nofun, .inl rfl⟩
  | overflow hsent hpending hcreate =>
    refine ⟨[], by rw [hsent, hpending, List.append_nil], nofun, .inr ⟨_, _, hcreate, ?_⟩⟩
    rw [Files.received_of_create hcreate]
    exact List.prefix_append _ _
  | stopped _ hcreate hsent hreceived hcause =>
    refine ⟨_, hsent, hcause.settled, .inr ⟨_, _, hcreate, ?_⟩⟩
    rw [hreceived]
    exact files.fit_isPrefix _ _

end DecodingDesk.Document
