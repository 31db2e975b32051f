import DecodingDesk.Document.Site
import DecodingDesk.Proofs.Document.Ending
import DecodingDesk.Proofs.Pool.Contract
/-!
# What reaches the output of a document

The chunks that a task has posted are those it has waited for, and then those under way.
Only the former reach the output, in order, whatever comes of the calls of the model and
however much the output takes.  A task that fails leaves chunks under way, which stay jobs
of the pool; nobody writes their answers.
-/

namespace DecodingDesk.Document

open Model (Output)
open Text (Bytes)

variable {request : Request} {size : Nat} {files : Files} {t t' : Task} {p p' : Pool}
  {fs fs' : Files}

def Stage.writer? : Stage → Option Writer
  | .reading _ w | .draining w => some w
  | _ => none

/-- The first of the chunks have been waited for and answered, and the others are under way. -/
structure Parted (t : Task) (p : Pool) (waited : List Job) : Prop where
  sent : t.sent = waited ++ t.pending
  answered : Answered p waited
  written : t.written = (waited.map Job.batch).flatten.length

/-- Where a task stands that writes to its output: what it has written there is what the chunks
waited for come to. -/
structure Writes (request : Request) (files : Files) (t : Task) (p : Pool) (fs : Files)
    (w : Writer) (handle : Handle) (opened : Files) (waited : List Job) : Prop where
  fits : fitsMemory request.batchSize = true
  create : files.create request.output = .ok (handle, opened)
  parted : Parted t p waited
  limit : fs.limit? handle.place = files.limit? handle.place
  carries : w.Carries fs handle.place (request.goal files handle.place p waited)

/-- How far a task has brought its output. -/
inductive Delivery (request : Request) (files : Files) (t : Task) (p : Pool) :
    Files → Prop where
  | unopened (hstage : t.stage = .opening ∨ ∃ source, t.stage = .creating source)
      (hsent : t.sent = []) (hpending : t.pending = []) : Delivery request files t p files
  | opened {source : Place} {handle : Handle} {opened : Files}
      (ht : t = { request, stage := .loading source { handle } })
      (hopen : files.openSource request.input = .ok source)
      (hcreate : files.create request.output = .ok (handle, opened)) :
      Delivery request files t p opened
  | writing {fs opened : Files} {handle : Handle} {waited : List Job} {w : Writer}
      (hwriter : t.stage.writer? = some w)
      (h : Writes request files t p fs w handle opened waited) : Delivery request files t p fs
  | ended {fs : Files} {r : Except Failure Nat} (hstage : t.stage = .ended r)
      (h : Ending request files t p fs r) : Delivery request files t p fs

/-! ## What others do to the pool -/

theorem Parted.of_keeps {waited : List Job} (h : Parted t p waited) (hkeeps : Keeps p p') :
    Parted t p' waited :=
  ⟨h.sent, h.answered.of_keeps hkeeps, h.written⟩

theorem Writes.of_keeps {w : Writer} {handle : Handle} {opened : Files} {waited : List Job}
    (h : Writes request files t p fs w handle opened waited) (hkeeps : Keeps p p') :
    Writes request files t p' fs w handle opened waited where
  fits := h.fits
  create := h.create
  parted := h.parted.of_keeps hkeeps
  limit := h.limit
  carries := by
    rw [h.parted.answered.settled.goal_eq hkeeps]
    exact h.carries

theorem Delivery.of_keeps (h : Delivery request files t p fs) (hkeeps : Keeps p p') :
    Delivery request files t p' fs := by
  cases h with
  | unopened hstage hsent hpending => exact .unopened hstage hsent hpending
  | opened ht hopen hcreate => exact .opened ht hopen hcreate
  | writing hwriter h => exact .writing hwriter (h.of_keeps hkeeps)
  | ended hstage h => exact .ended hstage (h.of_keeps hkeeps)

/-! ## What the task does -/

theorem Task.Waits.writer? {w : Writer} {next : Writer → Stage} (h : t.Waits p w next) :
    t.stage.writer? = some w ∧ ∀ w', (next w').writer? = some w' := by
  cases h with
  | full hstage | draining hstage =>
    rw [hstage]
    exact ⟨rfl, fun _ => rfl⟩

/-- Posting a chunk puts it under way. -/
theorem Parted.post {waited : List Job} {stage : Stage} {chunk : Batch} (h : Parted t p waited) :
    Parted ({ t with stage, chunk }.post p).1 p waited where
  sent := by rw [post_eq, h.sent, List.append_assoc]
  answered := h.answered
  written := h.written

theorem Parted.sent_of_pending {waited rest : List Job} {job : Job} (h : Parted t p waited)
    (hpending : t.pending = job :: rest) : t.sent = waited ++ [job] ++ rest := by
  rw [h.sent, hpending, List.append_assoc, List.singleton_append]

/-- Waiting for the oldest chunk, which has been answered. -/
theorem Parted.wait {waited rest : List Job} {job : Job} {os : List Output} {stage : Stage}
    (h : Parted t p waited) (hpending : t.pending = job :: rest)
    (hfuture : p.future? job.id = some (.ok os)) (hlength : os.length = job.batch.length) :
    Parted { t with stage, pending := rest, written := t.written + os.length } p
      (waited ++ [job]) where
  sent := h.sent_of_pending hpending
  answered := h.answered.concat hfuture
  written := by
    simp only [h.written, hlength, List.map_append, List.map_singleton, List.flatten_append,
      List.flatten_singleton, List.length_append]

theorem Delivery.of_loading {source : Place} {w : Writer} (h : Delivery request files t p fs)
    (hstage : t.stage = .loading source w) : ∃ handle, w = { handle } ∧
      t = { request, stage := .loading source { handle } } ∧
      files.openSource request.input = .ok source ∧
      files.create request.output = .ok (handle, fs) := by
  cases h with
  | unopened hstage' =>
    rcases hstage' with hstage' | ⟨source, hstage'⟩ <;>
    · rw [hstage'] at hstage
      cases hstage
  | opened ht hopen hcreate =>
    subst ht
    cases hstage
    exact ⟨_, rfl, rfl, hopen, hcreate⟩
  | writing hwriter =>
    rw [hstage] at hwriter
    cases hwriter
  | ended hstage' =>
    rw [hstage'] at hstage
    cases hstage

theorem Delivery.of_writer {w : Writer} (h : Delivery request files t p fs)
    (hwriter : t.stage.writer? = some w) :
    ∃ handle opened waited, Writes request files t p fs w handle opened waited := by
  cases h with
  | unopened hstage =>
    rcases hstage with hstage | ⟨source, hstage⟩ <;>
    · rw [hstage] at hwriter
      cases hwriter
  | opened ht =>
    subst ht
    cases hwriter
  | writing hwriter' h =>
    rw [hwriter'] at hwriter
    cases hwriter
    exact ⟨_, _, _, h⟩
  | ended hstage =>
    rw [hstage] at hwriter
    cases hwriter

/-- The output holds nothing but a front of what is written for chunks waited for. -/
theorem Delivery.exists_waited (h : Delivery request files t p fs) : ∃ waited,
    t.sent = waited ++ t.pending ∧ (∀ job ∈ waited, ∃ reply, p.future? job.id = some reply) ∧
    (fs = files ∨ ∃ handle opened, files.create request.output = .ok (handle, opened) ∧
      fs.received handle.place <+: request.goal files handle.place p waited) := by
  cases h with
  | unopened _ hsent hpending =>
    refine ⟨[], ?_, nofun, .inl rfl⟩
    rw [hsent, hpending, List.append_nil]
  | opened ht _ hcreate =>
    subst ht
    refine ⟨[], rfl, nofun, .inr ⟨_, _, hcreate, ?_⟩⟩
    rw [Files.received_of_create hcreate]
    exact List.prefix_append _ _
  | writing _ h =>
    exact ⟨_, h.parted.sent, h.parted.answered.settled,
      .inr ⟨_, _, h.create, h.carries.isPrefix⟩⟩
  | ended _ h => exact h.exists_waited

theorem Delivery.ending {r : Except Failure Nat} (h : Delivery request files t p fs)
    (hresult : t.result? = some r) : Ending request files t p fs r := by
  cases h with
  | unopened hstage =>
    rcases hstage with hstage | ⟨source, hstage⟩ <;>
    · rw [Task.result?, hstage] at hresult
      cases hresult
  | opened ht =>
    subst ht
    cases hresult
  | writing hwriter =>
    unfold Task.result? at hresult
    split at hresult
    · rename_i hstage
      rw [hstage] at hwriter
      cases hwriter
    · cases hresult
  | ended hstage h =>
    rw [Task.result?, hstage] at hresult
    cases hresult
    exact h

section Writes

variable {w w' : Writer} {handle : Handle} {opened : Files} {waited written : List Job} {b : Bool}

/-- A task that has just created its output has written nothing. -/
theorem Writes.start (hfits : fitsMemory request.batchSize = true)
    (hcreate : files.create request.output = .ok (handle, opened)) (hsent : t.sent = [])
    (hpending : t.pending = []) (hwritten : t.written = 0) :
    Writes request files t p opened { handle } handle opened [] where
  fits := hfits
  create := hcreate
  parted := ⟨by rw [hsent, hpending, List.append_nil], List.forall_mem_nil _, hwritten⟩
  limit := Files.limit?_create hcreate _
  carries := by
    rw [Request.goal, List.flatMap_nil, List.append_nil]
    exact Writer.carries_of_create hcreate

/-- Writing the answers to the oldest chunk. -/
theorem Writes.wrote {job : Job} {os : List Output}
    (h : Writes request files t p fs w handle opened waited)
    (hfuture : p.future? job.id = some (.ok os))
    (hwrite : w.writeAll fs (chunkPieces request.withScores os) = (b, w', fs')) :
    Writer.Wrote handle.place (request.goal files handle.place p (waited ++ [job])) (b, w', fs') ∧
      fs'.limit? handle.place = files.limit? handle.place := by
  have hwrote := Writer.wrote_writeAll h.carries (chunkPieces request.withScores os)
  have hlimit := w.limit?_writeAll fs (chunkPieces request.withScores os) handle.place
  rw [hwrite] at hwrote hlimit
  rw [Request.goal_concat, Request.renderingFor, hfuture]
  exact ⟨hwrote, hlimit.trans h.limit⟩

/-- Passing on what is left in the buffer. -/
theorem Writes.flushed (h : Writes request files t p fs w handle opened waited)
    (hflush : w.flush fs = (b, w', fs')) :
    Writer.Wrote handle.place (request.goal files handle.place p waited) (b, w', fs') ∧
      (b = true → w'.buffer = []) ∧ fs'.limit? handle.place = files.limit? handle.place := by
  obtain ⟨hwrote, hbuffer⟩ := Writer.wrote_flush h.carries
  have hlimit := w.limit?_flush fs handle.place
  rw [hflush] at hwrote hbuffer hlimit
  exact ⟨hwrote, hbuffer, hlimit.trans h.limit⟩

/-- A task that ends hands on its buffer as far as possible, so that its output has received what
was written, cut off where it is full. -/
theorem Writes.stop {r : Except Failure Nat}
    (h : Writes request files t p fs w handle opened waited)
    (hwrote : Writer.Wrote handle.place (request.goal files handle.place p written) (b, w', fs'))
    (hlimit : fs'.limit? handle.place = files.limit? handle.place)
    (hstage : t'.stage = .ended r) (hsent : t'.sent = written ++ t'.pending)
    (hcause : Cause request files opened handle.place p written t'.pending r) :
    Delivery request files t' p (w'.flush fs').2.2 := by
  refine .ended hstage (.stopped h.fits h.create hsent ?_ hcause)
  rw [hwrote.received_flush_eq, Files.fit_congr hlimit]

/-- A task whose output does not take what is due ends with an error, since the output is full. -/
theorem Writes.jam (h : Writes request files t p fs w handle opened waited)
    (hwrote : Writer.Wrote handle.place (request.goal files handle.place p written)
      (false, w', fs'))
    (hlimit : fs'.limit? handle.place = files.limit? handle.place)
    (hstage : t'.stage = .ended (.error (.error (.io request.output .noSpace))))
    (hsent : t'.sent = written ++ t'.pending) (hanswered : Answered p written) :
    Delivery request files t' p (w'.flush fs').2.2 := by
  have hlost := hwrote.length_fit_lt
  rw [Files.fit_congr hlimit] at hlost
  exact h.stop hwrote hlimit hstage hsent (.noSpace hanswered hlost)

/-- A task that has written the answers to all lines, and whose output has taken them. -/
theorem Writes.complete (h : Writes request files t p fs w handle opened waited)
    (hflush : w.flush fs = (true, w', fs')) (hempty : t.pending = [])
    (hitems : itemsOf? (request.lines files) = some t.batches.flatten) :
    Delivery request files (t.finish (.ok t.written)) p fs' := by
  obtain ⟨hwrote, hbuffer, hlimit⟩ := h.flushed hflush
  rw [Task.batches, h.parted.sent, hempty, List.append_nil] at hitems
  cases hwrote with
  | whole hcarries =>
    have hreceived := hcarries.received_eq (hbuffer rfl)
    have hwhole := fs'.fit_received handle.place
    rw [hreceived, Files.fit_congr hlimit] at hwhole
    rw [h.parted.written, length_of_itemsOf? hitems]
    refine .ended rfl (.stopped h.fits h.create h.parted.sent (hreceived.trans hwhole.symm) ?_)
    show Cause request files opened handle.place p waited t.pending _
    rw [hempty]
    exact .complete h.parted.answered hitems hwhole

end Writes

theorem Delivery.step (htally : p.Tallied) (hposted : ∀ job ∈ t.sent, job ∈ p.posted)
    (hkeeps : Keeps p p') (hrequest : t.request = request)
    (hchunking : Chunking request size files t fs)
    (h : Delivery request files t p fs) (hstep : t.Step p fs t' p' fs') :
    Delivery request files t' p' fs' := by
  cases hstep with
  | refuse hstage hzero =>
    obtain ⟨rfl, rfl⟩ := hchunking.of_opening hstage
    exact .ended rfl (.refused rfl rfl (.zeroBatchSize hzero))
  | noSource hstage _ hopen =>
    obtain ⟨rfl, rfl⟩ := hchunking.of_opening hstage
    exact .ended rfl (.refused rfl rfl (.noSource hopen))
  | openSource hstage =>
    obtain ⟨rfl, rfl⟩ := hchunking.of_opening hstage
    exact .unopened (.inr ⟨_, rfl⟩) rfl rfl
  | noOutput hstage hcreate =>
    obtain ⟨rfl, rfl, -⟩ := hchunking.of_creating hstage
    exact .ended rfl (.refused rfl rfl (.noOutput hcreate))
  | create hstage hcreate =>
    obtain ⟨rfl, rfl, -, hopen⟩ := hchunking.of_creating hstage
    exact .opened rfl hopen hcreate
  | overflow hstage hfits =>
    obtain ⟨handle, rfl, rfl, -, hcreate⟩ := h.of_loading hstage
    exact .ended rfl (.overflow rfl rfl hcreate hfits)
  | unreadable hstage hfits hcontent =>
    obtain ⟨handle, rfl, rfl, hopen, hcreate⟩ := h.of_loading hstage
    have hwrites := Writes.start (t := { request }) (p := p) hfits hcreate rfl rfl rfl
    exact hwrites.stop (.whole hwrites.carries) hwrites.limit rfl rfl (.unreadable hopen hcontent)
  | load hstage hfits =>
    obtain ⟨handle, rfl, rfl, -, hcreate⟩ := h.of_loading hstage
    exact .writing rfl (.start hfits hcreate rfl rfl rfl)
  | invalid hstage _ hline =>
    obtain ⟨handle, opened, waited, hwrites⟩ := h.of_writer (by rw [hstage]; rfl)
    have hlines := (hchunking.of_reading hstage).itemsOf?_eq_none hline
    rw [hrequest]
    exact hwrites.stop (.whole hwrites.carries) hwrites.limit rfl hwrites.parted.sent
      (.invalid hwrites.parted.answered hlines)
  | read hstage | endOfLines hstage =>
    obtain ⟨handle, opened, waited, hwrites⟩ := h.of_writer (by rw [hstage]; rfl)
    obtain ⟨hsent, hanswered, hwritten⟩ := hwrites.parted
    exact .writing rfl { hwrites with parted := ⟨hsent, hanswered, hwritten⟩ }
  | fill hstage | postLast hstage =>
    obtain ⟨handle, opened, waited, hwrites⟩ := h.of_writer (by rw [hstage]; rfl)
    exact .writing (by rw [post_eq]; rfl)
      { hwrites.of_keeps hkeeps with parted := hwrites.parted.post.of_keeps hkeeps }
  | @failed w next job rest e hwaits hpending hfuture =>
    obtain ⟨handle, opened, waited, hwrites⟩ := h.of_writer hwaits.writer?.1
    have hwrote : Writer.Wrote handle.place
        (request.goal files handle.place p (waited ++ [job])) (true, w, fs) := by
      rw [Request.goal_concat, Request.renderingFor, hfuture, List.append_nil]
      exact .whole hwrites.carries
    exact hwrites.stop hwrote hwrites.limit rfl (hwrites.parted.sent_of_pending hpending)
      (.failed hwrites.parted.answered hfuture)
  | @wrote w w' next job rest os fs' hwaits hpending hfuture hwrite =>
    obtain ⟨handle, opened, waited, hwrites⟩ := h.of_writer hwaits.writer?.1
    have hjob : job ∈ p.posted := by
      apply hposted
      rw [hwrites.parted.sent, hpending]
      exact List.mem_append_right _ List.mem_cons_self
    obtain ⟨-, -, -, -, hlength, -⟩ := htally.of_future?_ok hjob hfuture
    rw [hrequest] at hwrite
    obtain ⟨⟨hcarries⟩, hlimit⟩ := hwrites.wrote hfuture hwrite
    exact .writing (hwaits.writer?.2 _) ⟨hwrites.fits, hwrites.create,
      hwrites.parted.wait hpending hfuture hlength, hlimit, hcarries⟩
  | @jammed w w' next job rest os fs' hwaits hpending hfuture hwrite =>
    obtain ⟨handle, opened, waited, hwrites⟩ := h.of_writer hwaits.writer?.1
    rw [hrequest] at hwrite
    obtain ⟨hwrote, hlimit⟩ := hwrites.wrote hfuture hwrite
    rw [Task.outputError, hrequest]
    exact hwrites.jam hwrote hlimit rfl (hwrites.parted.sent_of_pending hpending)
      (hwrites.parted.answered.concat hfuture)
  | done hstage hempty hflush =>
    obtain ⟨handle, opened, waited, hwrites⟩ := h.of_writer (by rw [hstage]; rfl)
    exact hwrites.complete hflush hempty (hchunking.of_draining hstage).items
  | unflushed hstage hempty hflush =>
    obtain ⟨handle, opened, waited, hwrites⟩ := h.of_writer (by rw [hstage]; rfl)
    obtain ⟨hwrote, -, hlimit⟩ := hwrites.flushed hflush
    rw [Task.outputError, hrequest]
    exact hwrites.jam hwrote hlimit rfl hwrites.parted.sent hwrites.parted.answered

/-! ## The whole run -/

/-- The sites that come about from one while its pool is open, whatever comes of the calls of
a model, with the jobs that the task has posted on the way. -/
inductive Site.Later (start : Site) : List Job → Site → Prop where
  | start : Later start [] start
  | task {posted : List Job} {s s' : Site} : Later start posted s → s.step? .task = some s' →
      Later start (posted ++ s'.pool.posted.drop s.pool.posted.length) s'
  | pool {posted : List Job} {s s' : Site} {a : Pool.Action} : Later start posted s →
      a ≠ .close → s.step? (.pool a) = some s' → Later start posted s'

/-- What holds of a site at every moment, given the jobs that its task has posted. -/
structure Site.Kept (request : Request) (size : Nat) (files : Files) (posted : List Job)
    (s : Site) : Prop where
  pool : Pool.Reachable size s.pool
  serving : s.pool.phase = .serving
  request_eq : s.task.request = request
  chunking : Chunking request size files s.task s.files
  delivery : Delivery request files s.task s.pool s.files
  sent : s.task.sent = posted
  sublist : posted.Sublist s.pool.posted
  options : ∀ job ∈ posted, job.options = request.options

theorem Pool.Step.keeps {a : Pool.Action} (hstep : Pool.Step p a p')
    (hpool : Pool.Reachable size p) : Keeps p p' :=
  fun _ _ hreply => hstep.future?_eq_some hpool.tallied hpool.orderly hreply

theorem Site.Kept.mem_posted {posted : List Job} {s : Site}
    (h : s.Kept request size files posted) : ∀ job ∈ s.task.sent, job ∈ s.pool.posted := by
  rw [h.sent]
  exact fun _ hj => h.sublist.subset hj

theorem Site.Kept.task {posted : List Job} {s s' : Site} (hsize : 0 < size)
    (h : s.Kept request size files posted) (hstep : s.step? .task = some s') :
    s'.Kept request size files (posted ++ s'.pool.posted.drop s.pool.posted.length) := by
  obtain ⟨⟨t', p', fs'⟩, htask, rfl⟩ := Option.map_eq_some_iff.mp hstep
  have hstep := Task.step_of_step? htask
  have hwindow : Task.window s.pool = 2 * size := by
    rw [Task.window, Pool.size, h.pool.length_workers]
  have hchunking := h.chunking.step hsize hwindow h.request_eq hstep
  have hrequest := hstep.request_eq.trans h.request_eq
  have hdelivery := fun hkeeps : Keeps s.pool p' =>
    h.delivery.step h.pool.tallied h.mem_posted hkeeps h.request_eq h.chunking hstep
  rcases hstep.posts with ⟨rfl, hsent⟩ | ⟨batch, job, rfl, hoptions, hposted, hsent⟩
  · have hdelivery := hdelivery fun _ _ hreply => hreply
    simp only [List.drop_length, List.append_nil]
    exact ⟨h.pool, h.serving, hrequest, hchunking, hdelivery, hsent.trans h.sent, h.sublist,
      h.options⟩
  · have hpost : s.pool.step? (.post batch s.task.request.options) =
        some (s.pool.post batch s.task.request.options) := by
      simp [Pool.step?, h.serving]
    have hdelivery := hdelivery (Pool.Step.keeps (Pool.step_of_step? hpost) h.pool)
    simp only [hposted, List.drop_left]
    refine ⟨h.pool.step _ hpost, h.serving, hrequest, hchunking, hdelivery, ?_, ?_, ?_⟩
    · rw [hsent, h.sent]
    · show (posted ++ [job]).Sublist (s.pool.post batch s.task.request.options).posted
      rw [hposted]
      exact h.sublist.append (List.Sublist.refl _)
    · rw [h.request_eq] at hoptions
      exact List.forall_mem_append.mpr ⟨h.options, List.forall_mem_singleton.mpr hoptions⟩

theorem Site.Kept.others {posted : List Job} {s s' : Site} {a : Pool.Action}
    (h : s.Kept request size files posted) (hclose : a ≠ .close)
    (hstep : s.step? (.pool a) = some s') : s'.Kept request size files posted := by
  obtain ⟨p', hpool, rfl⟩ := Option.map_eq_some_iff.mp hstep
  have hstep := Pool.step_of_step? hpool
  exact ⟨h.pool.step a hpool, hstep.phase_serving h.serving hclose, h.request_eq, h.chunking,
    h.delivery.of_keeps (Pool.Step.keeps hstep h.pool), h.sent,
    h.sublist.trans hstep.isPrefix_posted.sublist, h.options⟩

theorem Site.Later.kept {posted : List Job} {s : Site} (hsize : 0 < size)
    (hpool : Pool.Reachable size p) (hserving : p.phase = .serving)
    (h : Site.Later { task := { request }, pool := p, files } posted s) :
    s.Kept request size files posted := by
  induction h with
  | start =>
    exact ⟨hpool, hserving, rfl, .opening, .unopened (.inl rfl) rfl rfl, rfl, List.nil_sublist _,
      nofun⟩
  | task _ hstep ih => exact ih.task hsize hstep
  | pool _ hclose hstep ih => exact ih.others hclose hstep

/-- What can come about around a model comes about in a pool that is open. -/
theorem Site.Reachable.later {model : Model} {start s : Site}
    (hstart : Shared model size start.pool) (h : Site.Reachable model start s) :
    Shared model size s.pool ∧ ∃ posted, Site.Later start posted s := by
  induction h with
  | start => exact ⟨hstart, [], .start⟩
  | @step s s' m _ hallows hstep ih =>
    obtain ⟨hshared, posted, hlater⟩ := ih
    cases m with
    | task =>
      refine ⟨?_, _, hlater.task hstep⟩
      obtain ⟨⟨t', p', fs'⟩, htask, rfl⟩ := Option.map_eq_some_iff.mp hstep
      rcases Task.pool_of_step? htask with rfl | ⟨batch, options, rfl⟩
      · exact hshared
      · exact hshared.post batch options
    | pool a =>
      have hclose : a ≠ .close := by
        rintro rfl
        exact hallows
      have hfollows : s.pool.Follows model a := by
        cases a <;> first | exact hallows | trivial
      refine ⟨?_, posted, hlater.pool hclose hstep⟩
      obtain ⟨p', hpool, rfl⟩ := Option.map_eq_some_iff.mp hstep
      exact hshared.step hclose hfollows hpool

/-- In a pool that makes its calls to a model, the model says what comes of a chunk. -/
theorem Site.Kept.eq_answerAlone {model : Model} {posted : List Job} {s : Site}
    (h : s.Kept request size files posted) (hshared : Shared model size s.pool) {job : Job}
    (hj : job ∈ posted) {reply : Pool.Reply} (hreply : s.pool.future? job.id = some reply) :
    reply = Pool.answerAlone model request.options job.batch := by
  rw [hshared.eq_answerAlone (h.sublist.subset hj) hreply, h.options job hj]

theorem Site.Kept.foretells {model : Model} {posted : List Job} {s : Site}
    (h : s.Kept request size files posted) (hshared : Shared model size s.pool)
    (hne : request.batchSize ≠ 0) :
    Foretells s.pool posted
      ((chunks request.batchSize (leading (request.lines files))).map
        (Pool.answerAlone model request.options)) := by
  intro k job reply hk hreply
  obtain ⟨rest, hrest⟩ := h.chunking.posted.isPrefix_chunks hne
  have hbatch : (posted.map Job.batch)[k]? = some job.batch := by
    rw [List.getElem?_map, hk]
    rfl
  rw [← hrest, Task.batches, h.sent, List.getElem?_map,
    List.getElem?_append_left (List.getElem?_eq_some_iff.mp hbatch).1, hbatch,
    h.eq_answerAlone hshared (List.mem_of_getElem? hk) hreply]
  rfl

/-- A task that is over posts nothing more and leaves the files alone. -/
theorem Site.Later.of_over {posted : List Job} {start s : Site} {r : Except Failure Nat}
    (hresult : start.task.result? = some r) (h : Site.Later start posted s) :
    posted = [] ∧ s.task = start.task ∧ s.files = start.files := by
  induction h with
  | start => exact ⟨rfl, rfl, rfl⟩
  | task _ hstep ih =>
    obtain ⟨-, htask, -⟩ := ih
    obtain ⟨⟨t', p', fs'⟩, hstep, -⟩ := Option.map_eq_some_iff.mp hstep
    rw [htask] at hstep
    unfold Task.result? at hresult
    split at hresult
    · rename_i hstage
      simp only [Task.step?, hstage] at hstep
      cases hstep
    · cases hresult
  | pool _ _ hstep ih =>
    obtain ⟨p', -, rfl⟩ := Option.map_eq_some_iff.mp hstep
    exact ih

/-- A task among other callers, given the jobs that it has posted. -/
structure Site.InOrder (request : Request) (size : Nat) (files : Files) (posted : List Job)
    (s : Site) : Prop where
  /-- The batches are the lines in order, none left out and none posted twice; all but the last
  are full, and a last one that is short brings the last line. -/
  batches : Posted request (request.lines files) (posted.map Job.batch)
  /-- Every job posted is one of the pool, and it is queued, being run, answered or lost: one of
  these, and once. -/
  jobs : posted.Sublist s.pool.posted ∧ ∀ job ∈ posted,
    s.pool.queue.count job + s.pool.workers.count (.running job) + s.pool.answered.count job +
      s.pool.workers.count (.died job) = 1
  /-- The jobs before those under way are settled, and no other has reached the output. -/
  pending : ∃ waited, posted = waited ++ s.task.pending ∧
    (∀ job ∈ waited, ∃ reply, s.pool.future? job.id = some reply) ∧
    (s.files = files ∨ ∃ handle opened, files.create request.output = .ok (handle, opened) ∧
      s.files.received handle.place <+: request.goal files handle.place s.pool waited)
  window : s.task.pending.length ≤ 2 * size
  complete : ∀ n, s.task.result? = some (.ok n) → s.task.pending = [] ∧
    itemsOf? (request.lines files) = some (posted.map Job.batch).flatten
  left : ∀ f, s.task.result? = some (.error f) → s.task.pending.length ≤ 2 * size - 1
  /-- What happens after the end changes neither the task nor a file. -/
  afterwards : ∀ r, s.task.result? = some r → ∀ more s', Site.Later s more s' →
    more = [] ∧ s'.task = s.task ∧ s'.files = s.files

/-- A document task keeps to its window and to the order of the lines at every moment, whatever
the lines are, whatever comes of the calls of the model and whatever other callers do. -/
theorem Site.Later.inOrder {posted : List Job} {s : Site} (hsize : 0 < size)
    (hpool : Pool.Reachable size p) (hserving : p.phase = .serving)
    (h : Site.Later { task := { request }, pool := p, files } posted s) :
    s.InOrder request size files posted := by
  have hkept := h.kept hsize hpool hserving
  have hchunking := hkept.chunking
  have htally := hkept.pool.tallied
  have hbatches : s.task.batches = posted.map Job.batch := by rw [Task.batches, hkept.sent]
  refine ⟨hbatches ▸ hchunking.posted, ⟨hkept.sublist, fun job hj => ?_⟩, ?_,
    hchunking.pending_le, fun n hn => ?_, fun f hf => ?_, fun r hr more s' => of_over hr⟩
  · rw [htally.count_places, if_pos (hkept.sublist.subset hj)]
  · rw [← hkept.sent]
    exact hkept.delivery.exists_waited
  · rcases hchunking.of_result hn with ⟨n', -, hexhausted, hpending⟩ | ⟨f, hf, -⟩
    · exact ⟨hpending, hbatches ▸ hexhausted.items⟩
    · cases hf
  · rcases hchunking.of_result hf with ⟨n, hn, -⟩ | ⟨f', -, hpending⟩
    · cases hn
    · omega

def threeLines : Files :=
  Files.empty.set ["work", "in"] (.file (Text.encode "a\nb\nc\n"))

def twoByTwo : Request where
  input := "in"
  output := "out"
  batchSize := 2
  options := .default
  withScores := false

/-- The call for the first chunk fails while the second is under way. -/
theorem inOrder_twoByTwo : twoByTwo.lines threeLines = Text.lines (Text.encode "a\nb\nc\n") ∧
    ∃ posted s,
      Site.Later { task := { request := twoByTwo }, pool := Pool.start 1, files := threeLines }
        posted s ∧
      posted.map Job.batch = [[["a"], ["b"]], [["c"]]] ∧
      s.task.result? = some (.error (.error (.engine (.stated "no")))) ∧
      s.task.pending.map Job.batch = [[["c"]]] ∧ s.pool.queue.map Job.batch = [[["c"]]] ∧
      s.InOrder twoByTwo 1 threeLines posted := by
  have hlines : twoByTwo.lines threeLines = Text.lines (Text.encode "a\nb\nc\n") :=
    @Request.lines_of_ne twoByTwo threeLines ["work", "in"] _ ⟨["work", "out"], 0⟩ _ rfl rfl
      (by decide)
  have hstart : Site.Later
      { task := { request := twoByTwo }, pool := Pool.start 1, files := threeLines } [] _ := .start
  have hopened := ((hstart.task rfl).task rfl).task rfl
  have hposted := (((hopened.task rfl).task rfl).task rfl).task rfl
  have hcalled := (hposted.pool (a := .notify none) (by simp) rfl).pool (a := .look 0) (by simp) rfl
  have hend := (hcalled.pool (a := .finish 0 (.failed (.stated "no"))) (by simp) rfl).task rfl
  have horder := hend.inOrder Nat.one_pos .start rfl
  exact ⟨hlines, _, _, hend, rfl, rfl, rfl, rfl, horder⟩

end DecodingDesk.Document
