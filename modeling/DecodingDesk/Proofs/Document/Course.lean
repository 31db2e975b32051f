import DecodingDesk.Document.Site
import DecodingDesk.Proofs.Document.Chunks
import DecodingDesk.Proofs.Document.Output
import DecodingDesk.Proofs.Pool.Answers
/-!
# The course of a document task

At every moment the lines that a task has read are the posted chunks and the one that
it fills, the posted chunks are those it has waited for and those under way, and the
output has received the rendering of the former.  These facts carry the task from one
stage to the next whatever workers and other callers do to the pool, and at its end
they say what the result is.
-/

namespace DecodingDesk.Document

open Model (Output)
open Text (Bytes)

/-! ## A pool that is shared -/

/-- A pool that is open and has made its calls to a model. -/
structure Shared (model : Model) (size : Nat) (p : Pool) : Prop where
  reachable : Pool.Reachable size p
  obeys : Pool.Obeys model p
  serving : p.phase = .serving

section Shared

variable {model : Model} {size : Nat} {p p' : Pool}

theorem shared_start (model : Model) (size : Nat) : Shared model size (Pool.start size) :=
  ⟨.start, Pool.obeys_start model size, rfl⟩

theorem Shared.step (h : Shared model size p) {a : Pool.Action} (hclose : a ≠ .close)
    (hfollows : p.Follows model a) (hstep : p.step? a = some p') : Shared model size p' where
  reachable := h.reachable.step a hstep
  obeys := h.obeys.step hfollows (Pool.step_of_step? hstep)
  serving := (Pool.step_of_step? hstep).phase_serving h.serving hclose

theorem Shared.post (h : Shared model size p) (batch : Batch) (options : Options) :
    Shared model size (p.post batch options) := by
  apply h.step (a := .post batch options) (by simp) trivial
  simp [Pool.step?, h.serving]

theorem Shared.window_eq (h : Shared model size p) : Task.window p = 2 * size := by
  rw [Task.window, Pool.size, h.reachable.length_workers]

theorem Shared.eq_answerAlone (h : Shared model size p) {job : Job} (hj : job ∈ p.posted)
    {reply : Pool.Reply} (hreply : p.future? job.id = some reply) :
    reply = Pool.answerAlone model job.options job.batch := by
  apply h.obeys.eq_answerAlone h.reachable.tallied _ hj hreply
  rw [h.serving]
  simp

end Shared

/-! ## The stages -/

/-- A document that can be read and an output that takes everything. -/
structure Scene where
  model : Model
  size : Nat
  request : Request
  files : Files
  source : Place
  content : Bytes
  handle : Handle
  opened : Files
  size_pos : 0 < size
  batchSize_ne_zero : request.batchSize ≠ 0
  fits : fitsMemory request.batchSize = true
  find : files.find request.input = .ok (source, .file content)
  create : files.create request.output = .ok (handle, opened)
  distinct : source ≠ handle.place
  room : ∀ taken room, files.node? handle.place = some (.device taken room) → room = none

/-- What the output holds when some chunks have been waited for. -/
def Scene.holds (c : Scene) (waited : List Job) : Bytes :=
  c.opened.received c.handle.place ++
    (inTurn c.model c.request.options c.request.withScores (waited.map Job.batch)).2

/-- A task that has still some lines to read, and has waited for some of its chunks. -/
structure Underway (c : Scene) (t : Task) (p : Pool) (fs : Files) (lines : List Bytes)
    (w : Writer) (waited : List Job) : Prop where
  request : t.request = c.request
  read : ∃ read, Text.lines c.content = read ++ lines ∧
    itemsOf? read = some ((t.sent.map Job.batch).flatten ++ t.chunk)
  sent : t.sent = waited ++ t.pending
  posted : ∀ job ∈ t.sent, job ∈ p.posted ∧ job.options = c.request.options
  answered : (inTurn c.model c.request.options c.request.withScores
    (waited.map Job.batch)).1 = .ok t.written
  takes : fs.Takes w.handle
  place : w.handle.place = c.handle.place
  total : w.total fs = c.holds waited

/-- The chunks of a task that is reading are full, and all but those in the window have been
waited for. -/
structure Windowed (c : Scene) (t : Task) (waited : List Job) : Prop where
  full : ∀ b ∈ t.sent.map Job.batch, b.length = c.request.batchSize
  chunk_lt : t.chunk.length < c.request.batchSize
  pending_le : t.pending.length ≤ 2 * c.size
  le_pending : waited ≠ [] → 2 * c.size ≤ t.pending.length + 1

/-- Where a task can be. -/
inductive Course (c : Scene) : Task → Pool → Files → Prop where
  | opening {p : Pool} : Course c { request := c.request } p c.files
  | creating {p : Pool} :
      Course c { request := c.request, stage := .creating c.source } p c.files
  | loading {p : Pool} :
      Course c { request := c.request, stage := .loading c.source { handle := c.handle } } p
        c.opened
  | reading {t : Task} {p : Pool} {fs : Files} {lines : List Bytes} {w : Writer}
      {waited : List Job} (hstage : t.stage = .reading lines w)
      (h : Underway c t p fs lines w waited) (hwindow : Windowed c t waited) : Course c t p fs
  | draining {t : Task} {p : Pool} {fs : Files} {w : Writer} {waited : List Job}
      (hstage : t.stage = .draining w) (h : Underway c t p fs [] w waited)
      (hchunk : t.chunk = [])
      (hcut : chunks c.request.batchSize (t.sent.map Job.batch).flatten =
        t.sent.map Job.batch) : Course c t p fs
  | ended {t : Task} {p : Pool} {fs : Files} {r : Except Failure Nat}
      (hstage : t.stage = .ended r)
      (hresult : r = (sequential c.model c.request c.size c.content).1.mapError .error)
      (hreceived : fs.received c.handle.place = c.opened.received c.handle.place ++
        (sequential c.model c.request c.size c.content).2) : Course c t p fs

/-! ## What others do to the pool -/

variable {c : Scene} {t t' : Task} {p p' : Pool} {fs fs' : Files}

theorem Underway.of_posted {lines : List Bytes} {w : Writer} {waited : List Job}
    (h : Underway c t p fs lines w waited) (hposted : ∀ job ∈ p.posted, job ∈ p'.posted) :
    Underway c t p' fs lines w waited :=
  { h with posted := fun job hj => ⟨hposted job (h.posted job hj).1, (h.posted job hj).2⟩ }

theorem Course.of_posted (h : Course c t p fs) (hposted : ∀ job ∈ p.posted, job ∈ p'.posted) :
    Course c t p' fs := by
  cases h with
  | opening => exact .opening
  | creating => exact .creating
  | loading => exact .loading
  | reading hstage h hwindow => exact .reading hstage (h.of_posted hposted) hwindow
  | draining hstage h hchunk hcut => exact .draining hstage (h.of_posted hposted) hchunk hcut
  | ended hstage hresult hreceived => exact .ended hstage hresult hreceived

/-! ## Waiting for the oldest chunk -/

/-- What waiting for the oldest chunk comes to: the chunk has failed and the task is over, or
its rendering is written and the task goes on. -/
theorem Underway.writeOldest {lines : List Bytes} {w : Writer} {waited : List Job}
    {next : Writer → Stage} (hpool : Shared c.model c.size p)
    (h : Underway c t p fs lines w waited)
    (hstep : t.writeOldest? p fs w next = some (t', p', fs')) :
    p' = p ∧ ∃ job rest, t.pending = job :: rest ∧
      ((∃ e, (inTurn c.model c.request.options c.request.withScores
            ((waited ++ [job]).map Job.batch)).1 = .error e ∧
          t'.stage = .ended (.error (.error (.engine e))) ∧
          fs'.received c.handle.place = c.holds (waited ++ [job])) ∨
        ∃ w' count, t' = { t with stage := next w', pending := rest,
                                  written := t.written + count } ∧
          Underway c t' p fs' lines w' (waited ++ [job])) := by
  unfold Task.writeOldest? at hstep
  split at hstep
  · cases hstep
  rename_i job rest hpending
  have hmem : job ∈ t.sent := by
    rw [h.sent, hpending]
    exact List.mem_append_right _ List.mem_cons_self
  obtain ⟨hposted, hoptions⟩ := h.posted job hmem
  split at hstep
  · cases hstep
  · rename_i e hreply
    have halone := (hpool.eq_answerAlone hposted hreply).symm
    rw [hoptions] at halone
    have hturn := inTurn_concat_error h.answered halone
    cases hstep
    refine ⟨rfl, job, rest, hpending, .inl ⟨e, ?_, rfl, ?_⟩⟩
    · rw [List.map_append, List.map_singleton, hturn]
    · show (w.flush fs).2.2.received c.handle.place = _
      rw [← h.place, Writer.received_flush h.takes, h.total, Scene.holds, Scene.holds,
        List.map_append, List.map_singleton, hturn]
  · rename_i os hreply
    have halone := (hpool.eq_answerAlone hposted hreply).symm
    rw [hoptions] at halone
    have hturn := inTurn_concat_ok h.answered halone
    have hadded := Writer.added_writeAll h.takes (chunkPieces t.request.withScores os)
    split at hstep
    · rename_i w' written hwrite
      rw [hwrite] at hadded
      cases hstep
      refine ⟨rfl, job, rest, hpending, .inr ⟨w', os.length, rfl, ?_⟩⟩
      refine ⟨h.request, h.read, ?_, h.posted, ?_, hadded.takes, hadded.place.trans h.place, ?_⟩
      · rw [h.sent, hpending, List.append_assoc, List.singleton_append]
      · rw [List.map_append, List.map_singleton, hturn]
      · rw [hadded.total, h.total, Scene.holds, Scene.holds, List.map_append,
          List.map_singleton, hturn, h.request, rendering, List.append_assoc]
    · rename_i w' written hwrite
      have hall := hadded.all
      rw [hwrite] at hall
      cases hall

/-! ## From stage to stage -/

/-- A chunk that fails settles the whole document. -/
theorem Course.ended_of_error {waited : List Job} {job : Job} {e : EngineError}
    (hfront : (waited ++ [job]).map Job.batch <+: awaited c.request c.size c.content)
    (herror : (inTurn c.model c.request.options c.request.withScores
      ((waited ++ [job]).map Job.batch)).1 = .error e)
    (hstage : t'.stage = .ended (.error (.error (.engine e))))
    (hreceived : fs'.received c.handle.place = c.holds (waited ++ [job])) :
    Course c t' p fs' := by
  have hsequential := sequential_of_error hfront herror
  refine .ended hstage ?_ ?_
  · rw [hsequential]
    rfl
  · rw [hreceived, hsequential, Scene.holds]

theorem Underway.items?_eq {w : Writer} {waited : List Job} (h : Underway c t p fs [] w waited)
    (hchunk : t.chunk = []) : items? c.content = some (t.sent.map Job.batch).flatten := by
  obtain ⟨read, hlines, hread⟩ := h.read
  rw [List.append_nil] at hlines
  rw [hchunk, List.append_nil] at hread
  rw [← hread, ← hlines]
  rfl

theorem post_eq (t : Task) (p : Pool) :
    t.post p =
      ({ t with
          chunk := []
          sent := t.sent ++ [⟨p.posted.length, t.chunk, t.request.options⟩]
          pending := t.pending ++ [⟨p.posted.length, t.chunk, t.request.options⟩] },
        p.post t.chunk t.request.options) := by
  simp [Task.post, Pool.post]

theorem Task.pool_of_writeOldest? {w : Writer} {next : Writer → Stage}
    (h : t.writeOldest? p fs w next = some (t', p', fs')) : p' = p := by
  unfold Task.writeOldest? at h
  repeat' split at h
  all_goals
    cases h
    try rfl

/-- A step of a task posts at most one chunk. -/
theorem Task.pool_of_step? (h : t.step? p fs = some (t', p', fs')) :
    p' = p ∨ ∃ batch options, p' = p.post batch options := by
  cases hstage : t.stage with
  | opening | creating source | loading source w =>
    simp only [Task.step?, hstage] at h
    repeat' split at h
    all_goals
      cases h
      exact .inl rfl
  | reading lines w =>
    simp only [Task.step?, Task.readLine, post_eq, hstage] at h
    split at h
    · exact .inl (Task.pool_of_writeOldest? h)
    · repeat' split at h
      all_goals
        cases h
        first | exact .inl rfl | exact .inr ⟨_, _, rfl⟩
  | draining w =>
    simp only [Task.step?, hstage] at h
    split at h
    · split at h <;> cases h <;> exact .inl rfl
    · exact .inl (Task.pool_of_writeOldest? h)
  | ended r =>
    simp only [Task.step?, hstage] at h
    cases h

/-- Posting the chunk moves its lines and changes nothing else. -/
theorem Underway.post {lines : List Bytes} {w : Writer} {waited : List Job}
    (h : Underway c t p fs lines w waited) :
    Underway c (t.post p).1 (t.post p).2 fs lines w waited := by
  rw [post_eq]
  obtain ⟨read, hlines, hread⟩ := h.read
  refine ⟨h.request, ⟨read, hlines, ?_⟩, ?_, ?_, h.answered, h.takes, h.place, h.total⟩
  · simpa [h.request] using hread
  · simp [h.sent]
  · intro job hj
    rcases List.mem_append.mp hj with hj | hj
    · obtain ⟨hposted, hoptions⟩ := h.posted job hj
      exact ⟨List.mem_append_left _ hposted, hoptions⟩
    · obtain rfl := List.mem_singleton.mp hj
      exact ⟨List.mem_append_right _ List.mem_cons_self, by rw [h.request]⟩

/-- A line that is no text ends the document. -/
theorem Underway.ended_of_invalid {line : Bytes} {rest : List Bytes} {w : Writer}
    {waited : List Job} (h : Underway c t p fs (line :: rest) w waited)
    (hwindow : Windowed c t waited) (hlt : t.pending.length < 2 * c.size)
    (hline : Text.decode line = none)
    (hstage : t'.stage = .ended (.error (.error (.io c.request.input .invalidUtf8))))
    (hreceived : fs'.received c.handle.place = c.holds waited) : Course c t' p fs' := by
  obtain ⟨read, hlines, hread⟩ := h.read
  obtain ⟨hitems, hawaited⟩ := awaited_of_invalid c.size_pos c.batchSize_ne_zero hlines hline
    hread hwindow.full hwindow.chunk_lt
  have hsent : t.sent.length = waited.length + t.pending.length := by
    rw [h.sent, List.length_append]
  -- the window holds back one chunk less than twice the workers, unless fewer were posted
  have hcount : (t.sent.map Job.batch).length + 1 - 2 * c.size = waited.length := by
    have hle := hwindow.le_pending
    rw [List.length_map]
    by_cases hnil : waited = []
    · rw [hnil] at hsent ⊢
      simp only [List.length_nil] at hsent ⊢
      omega
    · have := hle hnil
      omega
  have hfront : awaited c.request c.size c.content = waited.map Job.batch := by
    rw [hawaited, hcount, h.sent, List.map_append,
      List.take_append_of_le_length (by simp), ← List.length_map Job.batch, List.take_length]
  have hanswered := h.answered
  rw [← hfront] at hanswered
  have hsequential := sequential_of_ok hanswered
  refine .ended hstage ?_ ?_
  · rw [hsequential, hitems]
    rfl
  · rw [hreceived, hsequential, hfront, Scene.holds]

/-- A line that is a text joins the chunk, which is posted when it is full. -/
theorem Underway.readText {line : Bytes} {rest : List Bytes} {w : Writer} {waited : List Job}
    (hpool : Shared c.model c.size p) (h : Underway c t p fs (line :: rest) w waited)
    (hwindow : Windowed c t waited) (hlt : t.pending.length < 2 * c.size) {text : String}
    (hline : Text.decode line = some text)
    (hstep : t.readLine p fs w line rest = (t', p', fs')) :
    Shared c.model c.size p' ∧ Course c t' p' fs' := by
  obtain ⟨read, hlines, hread⟩ := h.read
  have hnext : Underway c
      { t with stage := .reading rest w, chunk := t.chunk ++ [Text.words text] } p fs rest w
      waited := by
    refine ⟨h.request, ⟨read ++ [line], ?_, ?_⟩, h.sent, h.posted, h.answered, h.takes, h.place,
      h.total⟩
    · rw [hlines, List.append_assoc, List.singleton_append]
    · rw [itemsOf?_concat hread hline, List.append_assoc]
  simp only [Task.readLine, hline] at hstep
  split at hstep
  · rename_i hshort
    rw [h.request] at hshort
    cases hstep
    exact ⟨hpool, .reading rfl hnext
      ⟨hwindow.full, hshort, hwindow.pending_le, hwindow.le_pending⟩⟩
  · rename_i hfull
    have hlength : (t.chunk ++ [Text.words text]).length = c.request.batchSize := by
      have := hwindow.chunk_lt
      rw [h.request] at hfull
      rw [List.length_append, List.length_singleton] at hfull ⊢
      omega
    have hposted := hnext.post
    simp only [post_eq] at hstep hposted
    cases hstep
    refine ⟨hpool.post _ _, .reading rfl hposted ⟨?_, ?_, ?_, ?_⟩⟩
    · intro b hb
      rw [List.map_append, List.map_singleton] at hb
      rcases List.mem_append.mp hb with hb | hb
      · exact hwindow.full b hb
      · rw [List.mem_singleton.mp hb]
        exact hlength
    · exact Nat.pos_of_ne_zero c.batchSize_ne_zero
    · rw [List.length_append, List.length_singleton]
      exact hlt
    · intro hne
      have := hwindow.le_pending hne
      rw [List.length_append, List.length_singleton]
      omega

/-- At the end of the lines the last chunk is posted, however short it is. -/
theorem Underway.endOfLines {w : Writer} {waited : List Job}
    (hpool : Shared c.model c.size p) (h : Underway c t p fs [] w waited)
    (hwindow : Windowed c t waited) :
    Shared c.model c.size
        (if t.chunk.isEmpty then p else ({ t with stage := .draining w }.post p).2) ∧
      Course c (if t.chunk.isEmpty then { t with stage := .draining w }
          else ({ t with stage := .draining w }.post p).1)
        (if t.chunk.isEmpty then p else ({ t with stage := .draining w }.post p).2) fs := by
  have hnext : Underway c { t with stage := .draining w } p fs [] w waited :=
    ⟨h.request, h.read, h.sent, h.posted, h.answered, h.takes, h.place, h.total⟩
  have hcut := chunks_flatten_append c.batchSize_ne_zero hwindow.full
  by_cases hchunk : t.chunk = []
  · rw [if_pos (by simp [hchunk]), if_pos (by simp [hchunk])]
    refine ⟨hpool, .draining rfl hnext hchunk ?_⟩
    have hcut := hcut []
    rwa [List.append_nil, chunks_nil, List.append_nil] at hcut
  · rw [if_neg (by simp [hchunk]), if_neg (by simp [hchunk])]
    have hposted := hnext.post
    simp only [post_eq] at hposted ⊢
    refine ⟨hpool.post _ _, .draining rfl hposted rfl ?_⟩
    simp only [List.map_append, List.map_singleton, List.flatten_append, List.flatten_singleton]
    rw [hcut, chunks_eq_singleton hchunk (Nat.le_of_lt hwindow.chunk_lt)]

theorem Underway.reading {lines : List Bytes} {w : Writer} {waited : List Job}
    (hpool : Shared c.model c.size p) (hstage : t.stage = .reading lines w)
    (h : Underway c t p fs lines w waited) (hwindow : Windowed c t waited)
    (hstep : t.step? p fs = some (t', p', fs')) :
    Shared c.model c.size p' ∧ Course c t' p' fs' := by
  simp only [Task.step?, hstage, hpool.window_eq] at hstep
  split at hstep
  · -- the window is full
    rename_i hfull
    obtain ⟨rfl, job, rest, hpending, hcase⟩ := h.writeOldest hpool hstep
    refine ⟨hpool, ?_⟩
    rcases hcase with ⟨e, herror, hover, hreceived⟩ | ⟨w', count, rfl, hnext⟩
    · obtain ⟨read, hlines, hread⟩ := h.read
      refine .ended_of_error ?_ herror hover hreceived
      apply isPrefix_awaited c.batchSize_ne_zero hlines hread hwindow.full
      · exact ⟨rest.map Job.batch, by simp [h.sent, hpending]⟩
      · simp only [h.sent, List.length_map, List.length_append, List.length_singleton]
        omega
    · refine .reading rfl hnext ⟨hwindow.full, hwindow.chunk_lt, ?_, ?_⟩
      · have := hwindow.pending_le
        simp only [hpending, List.length_cons] at this
        simp only
        omega
      · intro _
        simp only [hpending, List.length_cons] at hfull
        exact hfull
  · rename_i hlt
    split at hstep
    · rename_i line rest
      cases hline : Text.decode line with
      | none =>
        simp only [Task.readLine, hline] at hstep
        cases hstep
        refine ⟨hpool, h.ended_of_invalid hwindow (by omega) hline ?_ ?_⟩
        · rw [← h.request]
          rfl
        · show (w.flush fs).2.2.received c.handle.place = _
          rw [← h.place, Writer.received_flush h.takes, h.total]
      | some text => exact h.readText hpool hwindow (by omega) hline (Option.some.inj hstep)
    · have hend := h.endOfLines hpool hwindow
      split at hstep
      · rename_i hchunk
        simp only [hchunk, if_true] at hend
        cases hstep
        exact hend
      · rename_i hchunk
        simp only [hchunk] at hend
        cases hstep
        exact hend

theorem Underway.draining {w : Writer} {waited : List Job} (hpool : Shared c.model c.size p)
    (hstage : t.stage = .draining w) (h : Underway c t p fs [] w waited) (hchunk : t.chunk = [])
    (hcut : chunks c.request.batchSize (t.sent.map Job.batch).flatten = t.sent.map Job.batch)
    (hstep : t.step? p fs = some (t', p', fs')) :
    Shared c.model c.size p' ∧ Course c t' p' fs' := by
  have hitems := h.items?_eq hchunk
  have hawaited : awaited c.request c.size c.content = t.sent.map Job.batch := by
    rw [awaited, hitems]
    exact hcut
  simp only [Task.step?, hstage] at hstep
  split at hstep
  · rename_i hempty
    have hsent : t.sent = waited := by
      rw [h.sent, List.isEmpty_iff.mp hempty, List.append_nil]
    have hanswered := h.answered
    rw [← hsent, ← hawaited] at hanswered
    have hsequential := sequential_of_ok hanswered
    have hflush := (Writer.added_flush h.takes).1
    split at hstep
    · rename_i hw
      cases hstep
      refine ⟨hpool, .ended rfl ?_ ?_⟩
      · rw [hsequential, hitems]
        rfl
      · have hreceived := Writer.received_flush h.takes
        rw [hw] at hreceived
        calc fs'.received c.handle.place
            = w.total fs := by rw [← h.place, hreceived]
          _ = c.holds waited := h.total
          _ = c.opened.received c.handle.place ++
              (sequential c.model c.request c.size c.content).2 := by
            rw [hsequential, hawaited, hsent, Scene.holds]
    · rename_i hw
      have hall := hflush.all
      rw [hw] at hall
      cases hall
  · obtain ⟨rfl, job, rest, hpending, hcase⟩ := h.writeOldest hpool hstep
    refine ⟨hpool, ?_⟩
    rcases hcase with ⟨e, herror, hover, hreceived⟩ | ⟨w', count, rfl, hnext⟩
    · refine .ended_of_error ?_ herror hover hreceived
      rw [hawaited, h.sent, hpending]
      exact ⟨rest.map Job.batch, by simp⟩
    · exact .draining rfl hnext hchunk hcut

theorem Course.step (hpool : Shared c.model c.size p) (h : Course c t p fs)
    (hstep : t.step? p fs = some (t', p', fs')) :
    Shared c.model c.size p' ∧ Course c t' p' fs' := by
  cases h with
  | opening =>
    have hopen : c.files.openSource c.request.input = .ok c.source := by
      simp [Files.openSource, c.find, Except.map]
    simp only [Task.step?, c.batchSize_ne_zero, if_false, hopen] at hstep
    cases hstep
    exact ⟨hpool, .creating⟩
  | creating =>
    simp only [Task.step?, c.create] at hstep
    cases hstep
    exact ⟨hpool, .loading⟩
  | loading =>
    obtain ⟨-, hother, -⟩ := Files.create_spec c.create
    have hcontent : c.opened.contentAt c.source = .ok c.content := by
      rw [Files.contentAt, hother _ c.distinct, Files.node?_of_find c.find]
    simp only [Task.step?, c.fits, if_true, hcontent] at hstep
    cases hstep
    have hnext : Underway c
        { request := c.request, stage := .reading (Text.lines c.content) { handle := c.handle } }
        p c.opened (Text.lines c.content) { handle := c.handle } [] := by
      refine ⟨rfl, ⟨[], rfl, rfl⟩, rfl, ?_, rfl, ?_, rfl, ?_⟩
      · intro job hj
        cases hj
      · exact Files.takes_of_create c.create c.room
      · simp [Writer.total, Scene.holds, inTurn]
    refine ⟨hpool, .reading rfl hnext
      ⟨?_, Nat.pos_of_ne_zero c.batchSize_ne_zero, Nat.zero_le _, fun h => absurd rfl h⟩⟩
    intro b hb
    cases hb
  | reading hstage h hwindow => exact h.reading hpool hstage hwindow hstep
  | draining hstage h hchunk hcut => exact h.draining hpool hstage hchunk hcut hstep
  | ended hstage hresult hreceived =>
    simp only [Task.step?, hstage] at hstep
    cases hstep

/-- The chunks under way are jobs of the pool as long as the task is not over. -/
theorem Course.mem_posted (h : Course c t p fs) (hresult : t.result? = none) {job : Job}
    (hj : job ∈ t.pending) : job ∈ p.posted := by
  cases h with
  | opening | creating | loading => cases hj
  | reading _ h _ | draining _ h _ _ =>
    apply (h.posted job _).1
    rw [h.sent]
    exact List.mem_append_right _ hj
  | ended hstage _ _ =>
    rw [Task.result?, hstage] at hresult
    cases hresult

/-- A task that is over has done what the document in one go does. -/
theorem Course.of_result (h : Course c t p fs) {r : Except Failure Nat}
    (hresult : t.result? = some r) :
    r = (sequential c.model c.request c.size c.content).1.mapError .error ∧
      fs.received c.handle.place = c.opened.received c.handle.place ++
        (sequential c.model c.request c.size c.content).2 := by
  cases h with
  | opening | creating | loading => cases hresult
  | reading hstage | draining hstage =>
    rw [Task.result?, hstage] at hresult
    cases hresult
  | ended hstage hr hreceived =>
    rw [Task.result?, hstage] at hresult
    cases hresult
    exact ⟨hr, hreceived⟩

/-! ## The whole run -/

def Scene.start (c : Scene) : Site where
  task := { request := c.request }
  pool := Pool.start c.size
  files := c.files

theorem Site.Reachable.course {s : Site} (h : Site.Reachable c.model c.start s) :
    Shared c.model c.size s.pool ∧ Course c s.task s.pool s.files := by
  induction h with
  | start => exact ⟨shared_start c.model c.size, .opening⟩
  | @step s s' m _ hallows hstep ih =>
    obtain ⟨hpool, hcourse⟩ := ih
    cases m with
    | task =>
      obtain ⟨⟨task, pool, files⟩, htask, rfl⟩ := Option.map_eq_some_iff.mp hstep
      exact hcourse.step hpool htask
    | pool a =>
      obtain ⟨pool, hpoolstep, rfl⟩ := Option.map_eq_some_iff.mp hstep
      have hclose : a ≠ .close := by
        rintro rfl
        exact hallows
      have hfollows : s.pool.Follows c.model a := by
        cases a <;> first | exact hallows | trivial
      have hposted : ∀ job ∈ s.pool.posted, job ∈ pool.posted :=
        fun job => (Pool.step_of_step? hpoolstep).mem_posted
      exact ⟨hpool.step hclose hfollows hpoolstep, hcourse.of_posted hposted⟩

end DecodingDesk.Document
