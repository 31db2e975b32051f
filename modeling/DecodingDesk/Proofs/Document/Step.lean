import DecodingDesk.Proofs.Document.Course
/-!
# What a document task can do

`Task.step?` as a relation with one constructor for each kind of event: checks and opening,
reading, posting, waiting for the oldest chunk, and the end.  Nothing is assumed of the
files, of the output or of what comes of the chunks.
-/

namespace DecodingDesk.Document

open Model (Output)
open Text (Bytes)

namespace Task

variable {t t' : Task} {p p' : Pool} {fs fs' : Files}

/-- The task waits for its oldest chunk, because the window is full or because there are no
more lines, and has a stage to go on with. -/
inductive Waits (t : Task) (p : Pool) : Writer → (Writer → Stage) → Prop where
  | full {lines : List Bytes} {w : Writer} (hstage : t.stage = .reading lines w)
      (hfull : window p ≤ t.pending.length) : Waits t p w (.reading lines)
  | draining {w : Writer} (hstage : t.stage = .draining w) : Waits t p w .draining

/-- One event of a document task. -/
inductive Step (t : Task) (p : Pool) (fs : Files) : Task → Pool → Files → Prop where
  | refuse (hstage : t.stage = .opening) (hzero : t.request.batchSize = 0) :
      Step t p fs (t.fail (.options .zeroBatchSize)) p fs
  | noSource {fault : IoFault} (hstage : t.stage = .opening) (hne : t.request.batchSize ≠ 0)
      (hopen : fs.openSource t.request.input = .error fault) :
      Step t p fs (t.fail (.io t.request.input fault)) p fs
  | openSource {source : Place} (hstage : t.stage = .opening) (hne : t.request.batchSize ≠ 0)
      (hopen : fs.openSource t.request.input = .ok source) :
      Step t p fs { t with stage := .creating source } p fs
  | noOutput {source : Place} {fault : IoFault} (hstage : t.stage = .creating source)
      (hcreate : fs.create t.request.output = .error fault) :
      Step t p fs (t.fail (.io t.request.output fault)) p fs
  | create {source : Place} {handle : Handle} {opened : Files}
      (hstage : t.stage = .creating source)
      (hcreate : fs.create t.request.output = .ok (handle, opened)) :
      Step t p fs { t with stage := .loading source { handle } } p opened
  | overflow {source : Place} {w : Writer} (hstage : t.stage = .loading source w)
      (hfits : fitsMemory t.request.batchSize = false) :
      Step t p fs (t.finish (.error (.fault .capacityOverflow))) p fs
  | unreadable {source : Place} {w : Writer} {fault : IoFault}
      (hstage : t.stage = .loading source w) (hfits : fitsMemory t.request.batchSize = true)
      (hcontent : fs.contentAt source = .error fault) :
      Step t p fs (t.fail (.io t.request.input fault)) p (w.flush fs).2.2
  | load {source : Place} {w : Writer} {content : Bytes} (hstage : t.stage = .loading source w)
      (hfits : fitsMemory t.request.batchSize = true)
      (hcontent : fs.contentAt source = .ok content) :
      Step t p fs { t with stage := .reading (Text.lines content) w } p fs
  | invalid {line : Bytes} {rest : List Bytes} {w : Writer}
      (hstage : t.stage = .reading (line :: rest) w) (hroom : t.pending.length < window p)
      (hline : Text.decode line = none) :
      Step t p fs (t.fail (.io t.request.input .invalidUtf8)) p (w.flush fs).2.2
  | read {line : Bytes} {rest : List Bytes} {w : Writer} {text : String}
      (hstage : t.stage = .reading (line :: rest) w) (hroom : t.pending.length < window p)
      (hline : Text.decode line = some text) (hshort : t.chunk.length + 1 < t.request.batchSize) :
      Step t p fs { t with stage := .reading rest w, chunk := t.chunk ++ [Text.words text] } p fs
  /-- The line fills the chunk, which is posted. -/
  | fill {line : Bytes} {rest : List Bytes} {w : Writer} {text : String}
      (hstage : t.stage = .reading (line :: rest) w) (hroom : t.pending.length < window p)
      (hline : Text.decode line = some text)
      (hfull : t.request.batchSize ≤ t.chunk.length + 1) :
      Step t p fs
        ({ t with stage := .reading rest w, chunk := t.chunk ++ [Text.words text] }.post p).1
        ({ t with stage := .reading rest w, chunk := t.chunk ++ [Text.words text] }.post p).2 fs
  | endOfLines {w : Writer} (hstage : t.stage = .reading [] w)
      (hroom : t.pending.length < window p) (hempty : t.chunk = []) :
      Step t p fs { t with stage := .draining w } p fs
  | postLast {w : Writer} (hstage : t.stage = .reading [] w)
      (hroom : t.pending.length < window p) (hne : t.chunk ≠ []) :
      Step t p fs ({ t with stage := .draining w }.post p).1
        ({ t with stage := .draining w }.post p).2 fs
  | failed {w : Writer} {next : Writer → Stage} {job : Job} {rest : List Job} {e : EngineError}
      (hwaits : t.Waits p w next) (hpending : t.pending = job :: rest)
      (hfuture : p.future? job.id = some (.error e)) :
      Step t p fs ({ t with pending := rest }.fail (.engine e)) p (w.flush fs).2.2
  | wrote {w w' : Writer} {next : Writer → Stage} {job : Job} {rest : List Job}
      {os : List Output} {fs' : Files}
      (hwaits : t.Waits p w next) (hpending : t.pending = job :: rest)
      (hfuture : p.future? job.id = some (.ok os))
      (hwrite : w.writeAll fs (chunkPieces t.request.withScores os) = (true, w', fs')) :
      Step t p fs
        { t with stage := next w', pending := rest, written := t.written + os.length } p fs'
  /-- The output does not take all of the chunk. -/
  | jammed {w w' : Writer} {next : Writer → Stage} {job : Job} {rest : List Job}
      {os : List Output} {fs' : Files}
      (hwaits : t.Waits p w next) (hpending : t.pending = job :: rest)
      (hfuture : p.future? job.id = some (.ok os))
      (hwrite : w.writeAll fs (chunkPieces t.request.withScores os) = (false, w', fs')) :
      Step t p fs ({ t with pending := rest }.fail t.outputError) p (w'.flush fs').2.2
  | done {w w' : Writer} {fs' : Files} (hstage : t.stage = .draining w) (hempty : t.pending = [])
      (hflush : w.flush fs = (true, w', fs')) :
      Step t p fs (t.finish (.ok t.written)) p fs'
  /-- The output does not take what is left in the buffer. -/
  | unflushed {w w' : Writer} {fs' : Files} (hstage : t.stage = .draining w)
      (hempty : t.pending = []) (hflush : w.flush fs = (false, w', fs')) :
      Step t p fs (t.fail t.outputError) p (w'.flush fs').2.2

private theorem step_of_writeOldest? {w : Writer} {next : Writer → Stage}
    (hwaits : t.Waits p w next) (h : t.writeOldest? p fs w next = some (t', p', fs')) :
    Step t p fs t' p' fs' := by
  unfold writeOldest? at h
  split at h
  · cases h
  · rename_i job rest hpending
    split at h
    · cases h
    · rename_i e hfuture
      cases h
      exact .failed hwaits hpending hfuture
    · rename_i os hfuture
      split at h
      · rename_i w' fs' hwrite
        cases h
        exact .wrote hwaits hpending hfuture hwrite
      · rename_i w' fs' hwrite
        cases h
        exact .jammed hwaits hpending hfuture hwrite

private theorem step_of_readLine {line : Bytes} {rest : List Bytes} {w : Writer}
    (hstage : t.stage = .reading (line :: rest) w) (hroom : t.pending.length < window p)
    (h : t.readLine p fs w line rest = (t', p', fs')) : Step t p fs t' p' fs' := by
  unfold readLine at h
  split at h
  · rename_i hline
    cases h
    exact .invalid hstage hroom hline
  · rename_i text hline
    simp only [List.length_append, List.length_singleton] at h
    split at h
    · rename_i hshort
      cases h
      exact .read hstage hroom hline hshort
    · rename_i hfull
      cases h
      exact .fill hstage hroom hline (Nat.le_of_not_lt hfull)

private theorem step_of_opening (hstage : t.stage = .opening)
    (h : t.step? p fs = some (t', p', fs')) : Step t p fs t' p' fs' := by
  simp only [step?, hstage] at h
  split at h
  · rename_i hzero
    cases h
    exact .refuse hstage hzero
  · rename_i hne
    split at h
    · rename_i fault hopen
      cases h
      exact .noSource hstage hne hopen
    · rename_i source hopen
      cases h
      exact .openSource hstage hne hopen

private theorem step_of_loading {source : Place} {w : Writer}
    (hstage : t.stage = .loading source w) (h : t.step? p fs = some (t', p', fs')) :
    Step t p fs t' p' fs' := by
  simp only [step?, hstage] at h
  split at h
  · rename_i hfits
    split at h
    · rename_i fault hcontent
      cases h
      exact .unreadable hstage hfits hcontent
    · rename_i content hcontent
      cases h
      exact .load hstage hfits hcontent
  · rename_i hfits
    cases h
    exact .overflow hstage (by simpa using hfits)

private theorem step_of_reading {lines : List Bytes} {w : Writer}
    (hstage : t.stage = .reading lines w) (h : t.step? p fs = some (t', p', fs')) :
    Step t p fs t' p' fs' := by
  simp only [step?, hstage] at h
  split at h
  · rename_i hfull
    exact step_of_writeOldest? (.full hstage hfull) h
  · rename_i hroom
    have hroom := Nat.lt_of_not_le hroom
    split at h
    · exact step_of_readLine hstage hroom (Option.some.inj h)
    · split at h
      · rename_i hempty
        cases h
        exact .endOfLines hstage hroom (List.isEmpty_iff.mp hempty)
      · rename_i hne
        cases h
        exact .postLast hstage hroom (mt List.isEmpty_iff.mpr hne)

private theorem step_of_draining {w : Writer} (hstage : t.stage = .draining w)
    (h : t.step? p fs = some (t', p', fs')) : Step t p fs t' p' fs' := by
  simp only [step?, hstage] at h
  split at h
  · rename_i hempty
    have hempty := List.isEmpty_iff.mp hempty
    split at h
    · rename_i w' fs' hflush
      cases h
      exact .done hstage hempty hflush
    · rename_i w' fs' hflush
      cases h
      exact .unflushed hstage hempty hflush
  · exact step_of_writeOldest? (.draining hstage) h

theorem step_of_step? (h : t.step? p fs = some (t', p', fs')) : Step t p fs t' p' fs' := by
  cases hstage : t.stage with
  | opening => exact step_of_opening hstage h
  | creating source =>
    simp only [step?, hstage] at h
    split at h
    · rename_i fault hcreate
      cases h
      exact .noOutput hstage hcreate
    · rename_i handle opened hcreate
      cases h
      exact .create hstage hcreate
  | loading source w => exact step_of_loading hstage h
  | reading lines w => exact step_of_reading hstage h
  | draining w => exact step_of_draining hstage h
  | ended r =>
    simp only [step?, hstage] at h
    cases h

/-! ## What steps keep -/

theorem Step.request_eq (h : Step t p fs t' p' fs') : t'.request = t.request := by
  cases h <;> rfl

/-- A step posts one job, which the task notes down, or leaves the pool alone. -/
theorem Step.posts (h : Step t p fs t' p' fs') :
    p' = p ∧ t'.sent = t.sent ∨ ∃ batch job, p' = p.post batch t.request.options ∧
      job.options = t.request.options ∧ p'.posted = p.posted ++ [job] ∧
      t'.sent = t.sent ++ [job] := by
  cases h with
  | fill | postLast =>
    rw [post_eq]
    exact .inr ⟨_, _, rfl, rfl, rfl, rfl⟩
  | _ => exact .inl ⟨rfl, rfl⟩

end Task

end DecodingDesk.Document
