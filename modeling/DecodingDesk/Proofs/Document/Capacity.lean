import DecodingDesk.Model.Echo
import DecodingDesk.Proofs.Document.Delivery
import DecodingDesk.Proofs.Document.Progress
/-!
# An output with little room

A device takes so many bytes and no more.  What it has taken when a document task is over is a
front of what the chunks come to one after another, and a task that succeeds has brought it all
of that.  If it does not hold all, the task tells: the output had no space, unless a chunk that
failed or the input had already ended the document.
-/

namespace DecodingDesk.Document

open Model (Output)
open Text (Bytes)

variable {request : Request} {size : Nat} {files : Files} {p : Pool} {place : Place}

/-! ## What the chunks come to -/

/-- The lines of the input up to one that is no text, cut into chunks. -/
def Request.cut (r : Request) (fs : Files) : List Batch :=
  chunks r.batchSize (leading (Text.lines ((fs.read r.input).toOption.getD [])))

/-- What is written for chunks in turn, given what comes of each: the first that fails is the
last that matters. -/
def renderings (withScores : Bool) : List Pool.Reply → Bytes
  | .ok os :: rest => rendering withScores os ++ renderings withScores rest
  | _ => []

theorem renderings_append (withScores : Bool) (answers : List (List Output))
    (rest : List Pool.Reply) :
    renderings withScores (answers.map .ok ++ rest) =
      answers.flatMap (rendering withScores) ++ renderings withScores rest := by
  induction answers with
  | nil => rfl
  | cons os answers ih =>
    rw [List.map_cons, List.cons_append, renderings, ih, List.flatMap_cons, List.append_assoc]

/-- Chunks that have been answered are the first of all, and what is written for them is the
first of what is written. -/
theorem Foretells.split (request : Request) {answered rest : List Job} {replies : List Pool.Reply}
    (h : Foretells p (answered ++ rest) replies) (hanswered : Answered p answered) :
    ∃ (answers : List (List Output)) (others : List Pool.Reply),
      replies = answers.map .ok ++ others ∧ answers.length = answered.length ∧
      answered.flatMap (request.renderingFor p) =
        answers.flatMap (rendering request.withScores) ∧ Foretells p rest others := by
  induction answered generalizing replies with
  | nil => exact ⟨[], replies, rfl, rfl, rfl, h⟩
  | cons job answered ih =>
    obtain ⟨⟨os, hos⟩, hanswered⟩ := List.forall_mem_cons.mp hanswered
    obtain ⟨others, rfl, hothers⟩ := h.cons hos
    obtain ⟨answers, others, rfl, hlength, hrendering, hrest⟩ := ih hothers hanswered
    refine ⟨os :: answers, others, rfl, congrArg (· + 1) hlength, ?_, hrest⟩
    rw [List.flatMap_cons, List.flatMap_cons, hrendering, Request.renderingFor, hos]

/-! ## A place with a limit -/

/-- Opening a device as an output changes nothing, and so not the lines of the input. -/
theorem Request.lines_of_device {handle : Handle} {opened : Files} {taken : Bytes}
    {room : Option Nat} (hcreate : files.create request.output = .ok (handle, opened))
    (hdevice : files.node? handle.place = some (.device taken room)) :
    opened = files ∧
      request.lines files = Text.lines ((files.read request.input).toOption.getD []) := by
  obtain ⟨-, -, -, ⟨-, rfl⟩ | ⟨hnot, -⟩⟩ := Files.create_cases hcreate
  · refine ⟨rfl, ?_⟩
    rw [Request.lines, hcreate, Files.read]
    cases opened.openSource request.input <;> rfl
  · exact absurd hdevice (hnot _ _)

/-! ## The end of a run -/

/-- What ends a document whatever the output takes: the first chunk that fails, or an input that
cannot be read or is no text. -/
inductive Stops (request : Request) (files : Files) (replies : List Pool.Reply) : Error → Prop where
  | failed {answers : List (List Output)} {rest : List Pool.Reply} {e : EngineError}
      (hreplies : replies = answers.map .ok ++ .error e :: rest) :
      Stops request files replies (.engine e)
  | unreadable {fault : IoFault} (hread : files.read request.input = .error fault) :
      Stops request files replies (.io request.input fault)
  | invalid {content : Bytes} (hread : files.read request.input = .ok content)
      (hitems : items? content = none) :
      Stops request files replies (.io request.input .invalidUtf8)

/-- What a device with room for so many bytes has been brought when a document is over, whose
chunks come to some replies. -/
structure Brought (request : Request) (files : Files) (room : Nat) (replies : List Pool.Reply)
    (r : Except Failure Nat) (brought : Bytes) : Prop where
  /-- Nothing is out of order, twice or left out. -/
  isPrefix : brought <+: renderings request.withScores replies
  length_le : brought.length ≤ room
  complete : ∀ n, r = .ok n → brought = renderings request.withScores replies ∧
    n = (request.cut files).flatten.length ∧
      ∃ answers : List (List Output), replies = answers.map .ok
  told : room < (renderings request.withScores replies).length →
    r = .error (.error (.io request.output .noSpace)) ∧
        brought = (renderings request.withScores replies).take room ∨
      ∃ e, r = .error (.error e) ∧ Stops request files replies e

section Brought

variable {opened : Files} {room : Nat} {waited pending : List Job} {replies : List Pool.Reply}
  {r : Except Failure Nat}

theorem Foretells.isPrefix (request : Request) (h : Foretells p (waited ++ pending) replies)
    (hanswered : Answered p waited) :
    waited.flatMap (request.renderingFor p) <+: renderings request.withScores replies := by
  obtain ⟨answers, others, rfl, -, hrendering, -⟩ := h.split request hanswered
  rw [hrendering, renderings_append]
  exact List.prefix_append _ _

theorem Cause.isPrefix (hforetells : Foretells p (waited ++ pending) replies)
    (h : Cause request files opened place p waited pending r) :
    waited.flatMap (request.renderingFor p) <+: renderings request.withScores replies := by
  cases h with
  | unreadable => exact List.nil_prefix
  | invalid hanswered | noSpace hanswered | complete hanswered =>
    exact hforetells.isPrefix request hanswered
  | failed hanswered hfuture =>
    rw [List.append_assoc] at hforetells
    rw [List.flatMap_append, List.flatMap_singleton, Request.renderingFor, hfuture,
      List.append_nil]
    exact hforetells.isPrefix request hanswered

/-- Lines that are no texts are those of an input that can be read. -/
theorem exists_content_of_itemsOf?_eq_none
    (h : itemsOf? (Text.lines ((files.read request.input).toOption.getD [])) = none) :
    ∃ content, files.read request.input = .ok content ∧ items? content = none := by
  cases hread : files.read request.input with
  | error fault =>
    rw [hread] at h
    cases h
  | ok content =>
    rw [hread] at h
    exact ⟨content, rfl, h⟩

theorem Request.goal_of_device (request : Request) (p : Pool) (waited : List Job) {taken : Bytes}
    (hdevice : files.node? place = some (.device taken (some room))) :
    request.goal files place p waited = taken ++ waited.flatMap (request.renderingFor p) ∧
      files.fit place (request.goal files place p waited) =
        taken ++ (waited.flatMap (request.renderingFor p)).take room := by
  refine ⟨?_, files.fit_kept_append hdevice _⟩
  rw [Request.goal, Files.kept, hdevice]

/-- A document that succeeds has waited for all its chunks, and there was room for all that they
come to. -/
theorem Cause.all_of_ok {taken : Bytes} {n : Nat} (hne : request.batchSize ≠ 0)
    (hdevice : files.node? place = some (.device taken (some room)))
    (hlines : request.lines files = Text.lines ((files.read request.input).toOption.getD []))
    (hposted : Posted request (request.lines files) ((waited ++ pending).map Job.batch))
    (hforetells : Foretells p (waited ++ pending) replies)
    (hlength : replies.length = (request.cut files).length)
    (h : Cause request files files place p waited pending (.ok n)) :
    (waited.flatMap (request.renderingFor p)).take room =
        renderings request.withScores replies ∧
      n = (request.cut files).flatten.length ∧
      ∃ answers : List (List Output), replies = answers.map .ok := by
  obtain ⟨hgoal, hfit⟩ := request.goal_of_device p waited hdevice
  cases h with
  | complete hanswered hitems hwhole =>
    rw [List.append_nil] at hposted
    obtain ⟨answers, others, rfl, hanswers, hrendering, -⟩ := hforetells.split request hanswered
    have hcut : request.cut files = waited.map Job.batch := by
      rw [Request.cut, ← hlines, hposted.eq_chunks hne hitems]
    -- each chunk has been answered, so that no reply is left over
    have hothers : others = [] := by
      rw [hcut, List.length_append, List.length_map, List.length_map, hanswers] at hlength
      exact List.eq_nil_of_length_eq_zero (Nat.add_eq_left.mp hlength)
    rw [hfit, hgoal] at hwhole
    refine ⟨?_, ?_, answers, by rw [hothers, List.append_nil]⟩
    · rw [List.append_cancel_left hwhole, hrendering, renderings_append, hothers]
      exact (List.append_nil _).symm
    · rw [hcut, length_of_itemsOf? hitems]

/-- A document that fails has filled the device, or something else has stopped it. -/
theorem Cause.told_of_error {taken : Bytes} {failure : Failure}
    (hdevice : files.node? place = some (.device taken (some room)))
    (hlines : request.lines files = Text.lines ((files.read request.input).toOption.getD []))
    (hforetells : Foretells p (waited ++ pending) replies)
    (h : Cause request files files place p waited pending (.error failure)) :
    failure = .error (.io request.output .noSpace) ∧
        (waited.flatMap (request.renderingFor p)).take room =
          (renderings request.withScores replies).take room ∨
      ∃ e, failure = .error e ∧ Stops request files replies e := by
  cases h with
  | unreadable hopen hcontent =>
    refine .inr ⟨_, rfl, .unreadable ?_⟩
    rw [Files.read, hopen]
    exact hcontent
  | invalid hanswered hitems =>
    obtain ⟨content, hread, hitems⟩ := exists_content_of_itemsOf?_eq_none (hlines ▸ hitems)
    exact .inr ⟨_, rfl, .invalid hread hitems⟩
  | failed hanswered hfuture =>
    rw [List.append_assoc] at hforetells
    obtain ⟨answers, others, rfl, -, -, hothers⟩ := hforetells.split request hanswered
    obtain ⟨rest, rfl, -⟩ := hothers.cons hfuture
    exact .inr ⟨_, rfl, .failed rfl⟩
  | noSpace hanswered hshort =>
    obtain ⟨hgoal, hfit⟩ := request.goal_of_device p waited hdevice
    refine .inl ⟨rfl, ?_⟩
    rw [hfit, hgoal, List.length_append, List.length_append, List.length_take] at hshort
    obtain ⟨rest, hrest⟩ := hforetells.isPrefix request hanswered
    rw [← hrest, List.take_append_of_le_length]
    omega

/-- What the chunks waited for come to, as far as there is room. -/
theorem Cause.brought {taken : Bytes} (hne : request.batchSize ≠ 0)
    (hdevice : files.node? place = some (.device taken (some room)))
    (hlines : request.lines files = Text.lines ((files.read request.input).toOption.getD []))
    (hposted : Posted request (request.lines files) ((waited ++ pending).map Job.batch))
    (hforetells : Foretells p (waited ++ pending) replies)
    (hlength : replies.length = (request.cut files).length)
    (h : Cause request files files place p waited pending r) :
    Brought request files room replies r
      ((waited.flatMap (request.renderingFor p)).take room) where
  isPrefix := (List.take_prefix _ _).trans (h.isPrefix hforetells)
  length_le := List.length_take_le _ _
  complete n hn := by
    subst hn
    exact h.all_of_ok hne hdevice hlines hposted hforetells hlength
  told hlost := by
    cases r with
    | ok n =>
      obtain ⟨hall, -⟩ := h.all_of_ok hne hdevice hlines hposted hforetells hlength
      rw [← hall, List.length_take] at hlost
      omega
    | error failure => simpa using h.told_of_error hdevice hlines hforetells

end Brought

/-- For an output device that opens and takes so many bytes before every write fails: what it
has been brought when a document task is over is a front of what the chunks of the input come
to in turn, and the whole of it if the task succeeds; and if there is not room for the whole,
the result is an error that names the output, or one that ended the document before.  That is
so in every pool that is open, whatever comes of the calls of a model and whatever other
callers do. -/
theorem Site.Later.no_silent_loss {posted : List Job} {s : Site} {r : Except Failure Nat}
    {handle : Handle} {opened : Files} {taken : Bytes} {room : Nat} {replies : List Pool.Reply}
    (hsize : 0 < size) (hpool : Pool.Reachable size p) (hserving : p.phase = .serving)
    (hbatch : request.batchSize ≠ 0) (hfits : fitsMemory request.batchSize = true)
    (hcreate : files.create request.output = .ok (handle, opened))
    (hdevice : files.node? handle.place = some (.device taken (some room)))
    (h : Site.Later { task := { request }, pool := p, files } posted s)
    (hresult : s.task.result? = some r) (hlength : replies.length = (request.cut files).length)
    (hreplies : Foretells s.pool posted replies) :
    ∃ brought, s.files.received handle.place = taken ++ brought ∧
      Brought request files room replies r brought := by
  have hkept := h.kept hsize hpool hserving
  obtain ⟨hopened, hlines⟩ := Request.lines_of_device hcreate hdevice
  subst hopened
  have hposted := hkept.chunking.posted
  cases hkept.delivery.ending hresult with
  | refused _ _ hrefusal =>
    refine ⟨[], by rw [Files.received, hdevice, List.append_nil], List.nil_prefix,
      Nat.zero_le _, ?_, fun _ => .inr ?_⟩
    · rintro n rfl
      cases hrefusal
    · cases hrefusal with
      | zeroBatchSize hzero => exact absurd hzero hbatch
      | noSource hopen =>
        refine ⟨_, rfl, .unreadable ?_⟩
        rw [Files.read, hopen]
        rfl
      | noOutput hfault =>
        rw [hcreate] at hfault
        cases hfault
  | overflow _ _ _ hnot =>
    rw [hfits] at hnot
    cases hnot
  | stopped _ hcreate' hsent hreceived hcause =>
    rw [hcreate] at hcreate'
    cases hcreate'
    rw [← hkept.sent, hsent] at hreplies
    rw [Task.batches, hsent] at hposted
    refine ⟨_, ?_, hcause.brought hbatch hdevice hlines hposted hreplies hlength⟩
    rw [hreceived, Request.goal, Files.fit_kept_append hdevice]

/-- A file of two lines, and a device with room for three bytes. -/
def tightFiles : Files :=
  (Files.empty.set ["work", "in"] (.file (Text.encode "a\nb\n"))).set ["work", "out"]
    (.device [] (some 3))

def lineByLine : Request where
  input := "in"
  output := "out"
  batchSize := 1
  options := .default
  withScores := false

/-- Both lines are answered before the first answer is written. -/
def bothBeforehand : List Site.Move :=
  [.task, .task, .task, .task, .task, .pool (.notify none), .pool (.look 0),
   .pool (.finish 0 (Model.Echo.model {} [["a"]] .default)), .pool (.look 0),
   .pool (.finish 0 (Model.Echo.model {} [["b"]] .default)), .task, .task, .task, .task]

theorem possible_bothBeforehand : Site.Possible (Model.Echo.model {})
    { task := { request := lineByLine }, pool := Pool.start 1, files := tightFiles }
    bothBeforehand := by
  iterate 7 refine ⟨trivial, _, rfl, ?_⟩
  refine ⟨by rintro job ⟨⟩; rfl, _, rfl, trivial, _, rfl, ?_⟩
  refine ⟨by rintro job ⟨⟩; rfl, _, rfl, ?_⟩
  iterate 4 refine ⟨trivial, _, rfl, ?_⟩
  trivial

/-- Both answers wait in the buffer at the end, and the device takes three of their four bytes. -/
theorem no_silent_loss_tightFiles : ∃ posted s,
    Site.Later { task := { request := lineByLine }, pool := Pool.start 1, files := tightFiles }
      posted s ∧
    s.task.result? = some (.error (.error (.io "out" .noSpace))) ∧
    s.files.received ["work", "out"] = Text.encode "a\nb" ∧
    Brought lineByLine tightFiles 3
      ((lineByLine.cut tightFiles).map (Pool.answerAlone (Model.Echo.model {}) .default))
      (.error (.error (.io "out" .noSpace))) (Text.encode "a\nb") := by
  have hreach := (Site.Run.ofMoves _ possible_bothBeforehand).reachable 14
  obtain ⟨hshared, posted, hlater⟩ := hreach.later (shared_start _ 1)
  have hresult : ((Site.Run.ofMoves _ possible_bothBeforehand).site 14).task.result? =
      some (.error (.error (.io "out" .noSpace))) := rfl
  have hreplies := (hlater.kept Nat.one_pos .start rfl).foretells hshared Nat.one_ne_zero
  obtain ⟨brought, hreceived, hbrought⟩ := hlater.no_silent_loss
    Nat.one_pos .start rfl Nat.one_ne_zero (by decide) rfl rfl hresult (List.length_map _) hreplies
  have hbytes : Text.encode "a\nb" = [97, 10, 98] := by decide +kernel
  have heq : brought = [97, 10, 98] := hreceived.symm.trans rfl
  rw [heq, ← hbytes] at hreceived hbrought
  exact ⟨_, _, hlater, hresult, hreceived, hbrought⟩

end DecodingDesk.Document
