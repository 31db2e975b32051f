import DecodingDesk.Proofs.Document.Overflow
import DecodingDesk.Proofs.Document.Step
/-!
# The window of a document task

What a task posts are the lines of its input in order, cut into full chunks of which only the
last may be short, and at no moment has it more chunks under way than its window holds.  That
is so whatever the calls of the model come to, whatever the input holds and however much the
output takes.  When a task fails, the chunks under way stay jobs of the pool, and the output
has a front of what was written for the chunks before them.
-/

namespace DecodingDesk.Document

open Model (Output)
open Text (Bytes)

/-! ## Chunks of lines -/

/-- The lines that a task finds in its input, which it opens before and reads after it has
created its output. -/
def Request.lines (r : Request) (fs : Files) : List Bytes :=
  match fs.openSource r.input, fs.create r.output with
  | .ok source, .ok (_, opened) => Text.lines ((opened.contentAt source).toOption.getD [])
  | _, _ => []

variable {request : Request} {size : Nat} {files : Files} {lines : List Bytes} {t t' : Task}
  {p p' : Pool} {fs fs' : Files}

theorem Request.lines_eq {source : Place} {handle : Handle} {opened : Files}
    (hopen : files.openSource request.input = .ok source)
    (hcreate : files.create request.output = .ok (handle, opened)) :
    request.lines files = Text.lines ((opened.contentAt source).toOption.getD []) := by
  rw [Request.lines, hopen, hcreate]

/-- An output that is not the input leaves its lines alone. -/
theorem Request.lines_of_ne {source : Place} {content : Bytes} {handle : Handle} {opened : Files}
    (hfind : files.find request.input = .ok (source, .file content))
    (hcreate : files.create request.output = .ok (handle, opened)) (hne : source ≠ handle.place) :
    request.lines files = Text.lines content := by
  have hopen : files.openSource request.input = .ok source := by
    simp [Files.openSource, hfind, Except.map]
  obtain ⟨-, hother, -⟩ := Files.create_spec hcreate
  rw [Request.lines_eq hopen hcreate, Files.contentAt, hother _ hne, Files.node?_of_find hfind]
  rfl

/-- What has been posted: no batch is empty, all but the last are full, and together they are
the first of the lines.  A short one is posted only when it brings the last line. -/
structure Posted (request : Request) (lines : List Bytes) (batches : List Batch) : Prop where
  ne_nil : ∀ b ∈ batches, b ≠ []
  full : ∀ b ∈ batches.dropLast, b.length = request.batchSize
  le : ∀ b ∈ batches, b.length ≤ request.batchSize
  isPrefix : batches.flatten <+: leading lines
  short : ∀ b ∈ batches, b.length ≠ request.batchSize → itemsOf? lines = some batches.flatten

/-- While lines are read, all that has been posted is full. -/
structure Filling (request : Request) (lines rest : List Bytes) (batches : List Batch)
    (chunk : Batch) : Prop where
  read : ∃ read, lines = read ++ rest ∧ itemsOf? read = some (batches.flatten ++ chunk)
  full : ∀ b ∈ batches, b.length = request.batchSize
  chunk_lt : chunk.length < request.batchSize

/-- When there are no more lines, all of them have been posted. -/
structure Exhausted (request : Request) (lines : List Bytes) (batches : List Batch) : Prop where
  items : itemsOf? lines = some batches.flatten
  ne_nil : ∀ b ∈ batches, b ≠ []
  full : ∀ b ∈ batches.dropLast, b.length = request.batchSize
  le : ∀ b ∈ batches, b.length ≤ request.batchSize

section Batches

variable {batches : List Batch} {chunk : Batch}

theorem posted_nil : Posted request lines [] where
  ne_nil := nofun
  full := nofun
  le := nofun
  isPrefix := List.nil_prefix
  short := nofun

theorem Filling.posted {rest : List Bytes} (h : Filling request lines rest batches chunk) :
    Posted request lines batches where
  ne_nil b hb := by
    rintro rfl
    have hfull := h.full _ hb
    have hlt := h.chunk_lt
    rw [List.length_nil] at hfull
    omega
  full b hb := h.full b (List.dropLast_subset _ hb)
  le b hb := Nat.le_of_eq (h.full b hb)
  isPrefix := by
    obtain ⟨read, rfl, hread⟩ := h.read
    rw [leading_append hread, List.append_assoc]
    exact List.prefix_append _ _
  short b hb hshort := absurd (h.full b hb) hshort

theorem Exhausted.posted (h : Exhausted request lines batches) : Posted request lines batches where
  ne_nil := h.ne_nil
  full := h.full
  le := h.le
  isPrefix := leading_of_itemsOf? h.items ▸ List.prefix_rfl
  short _ _ _ := h.items

/-- What has been posted are the first of the chunks into which the lines are cut. -/
theorem Posted.isPrefix_chunks (hne : request.batchSize ≠ 0) (h : Posted request lines batches) :
    batches <+: chunks request.batchSize (leading lines) := by
  rcases List.eq_nil_or_concat' batches with rfl | ⟨front, last, rfl⟩
  · exact List.nil_prefix
  have hfront : ∀ b ∈ front, b.length = request.batchSize := by
    have hfull := h.full
    rwa [List.dropLast_concat] at hfull
  have hmem : last ∈ front ++ [last] := List.mem_append_right _ List.mem_cons_self
  by_cases hlast : last.length = request.batchSize
  · obtain ⟨rest, hrest⟩ := h.isPrefix
    rw [← hrest, chunks_flatten_append hne
      (List.forall_mem_append.mpr ⟨hfront, List.forall_mem_singleton.mpr hlast⟩)]
    exact List.prefix_append _ _
  · have hall : chunks request.batchSize (leading lines) = front ++ [last] := by
      rw [leading_of_itemsOf? (h.short _ hmem hlast), List.flatten_append, List.flatten_singleton,
        chunks_flatten_append hne hfront, chunks_eq_singleton (h.ne_nil _ hmem) (h.le _ hmem)]
    exact hall ▸ List.prefix_rfl

/-- When all lines have been posted, nothing is left of the chunks. -/
theorem Posted.eq_chunks (hne : request.batchSize ≠ 0) (h : Posted request lines batches)
    (hitems : itemsOf? lines = some batches.flatten) :
    batches = chunks request.batchSize (leading lines) := by
  obtain ⟨rest, hrest⟩ := h.isPrefix_chunks hne
  have hflatten := congrArg List.flatten hrest
  rw [flatten_chunks hne, leading_of_itemsOf? hitems, List.flatten_append,
    List.append_right_eq_self] at hflatten
  have hnil : rest = [] := by
    rw [List.eq_nil_iff_forall_not_mem]
    intro b hb
    apply ne_nil_of_mem_chunks (hrest ▸ List.mem_append_right _ hb)
    exact List.flatten_eq_nil_iff.mp hflatten b hb
  rw [← hrest, hnil, List.append_nil]

/-- If a chunk is large enough for all lines, at most one is posted. -/
theorem Posted.at_most_one (hle : lines.length ≤ request.batchSize)
    (hne : request.batchSize ≠ 0) (h : Posted request lines batches) :
    batches = [] ∨ ∃ items, itemsOf? lines = some items ∧ items ≠ [] ∧ batches = [items] := by
  have hprefix := h.isPrefix_chunks hne
  have hlead := length_leading_le lines
  by_cases hnil : leading lines = []
  · rw [hnil, chunks_nil] at hprefix
    exact .inl (List.prefix_nil.mp hprefix)
  rw [chunks_eq_singleton hnil (hlead.trans hle)] at hprefix
  rcases List.prefix_cons_iff.mp hprefix with rfl | ⟨rest, rfl, hrest⟩
  · exact .inl rfl
  obtain rfl := List.prefix_nil.mp hrest
  refine .inr ⟨leading lines, ?_, hnil, rfl⟩
  by_cases hshort : (leading lines).length = request.batchSize
  · exact itemsOf?_of_length_leading (hshort ▸ hle)
  · have hitems := h.short _ List.mem_cons_self hshort
    rwa [List.flatten_singleton] at hitems

theorem Filling.readText {line : Bytes} {rest : List Bytes} {text : String}
    (h : Filling request lines (line :: rest) batches chunk)
    (hline : Text.decode line = some text) : ∃ read, lines = read ++ rest ∧
      itemsOf? read = some (batches.flatten ++ (chunk ++ [Text.words text])) := by
  obtain ⟨read, hlines, hread⟩ := h.read
  refine ⟨read ++ [line], ?_, ?_⟩
  · rw [hlines, List.append_assoc, List.singleton_append]
  · rw [itemsOf?_concat hread hline, List.append_assoc]

theorem Filling.itemsOf?_eq_none {line : Bytes} {rest : List Bytes}
    (h : Filling request lines (line :: rest) batches chunk) (hline : Text.decode line = none) :
    itemsOf? lines = none := by
  obtain ⟨read, rfl, hread⟩ := h.read
  rw [itemsOf?_append hread, itemsOf?_cons_invalid hline]
  rfl

/-- A line that fills the chunk brings one more full batch. -/
theorem Filling.fill {line : Bytes} {rest : List Bytes} {text : String}
    (h : Filling request lines (line :: rest) batches chunk)
    (hline : Text.decode line = some text) (hfull : request.batchSize ≤ chunk.length + 1) :
    Filling request lines rest (batches ++ [chunk ++ [Text.words text]]) [] := by
  have hlt := h.chunk_lt
  obtain ⟨read, hlines, hread⟩ := h.readText hline
  refine ⟨⟨read, hlines, ?_⟩, ?_, Nat.lt_of_le_of_lt (Nat.zero_le _) hlt⟩
  · rw [hread, List.flatten_append, List.flatten_singleton, List.append_nil]
  · intro b hb
    rcases List.mem_append.mp hb with hb | hb
    · exact h.full b hb
    · rw [List.mem_singleton.mp hb, List.length_append, List.length_singleton]
      omega

theorem Filling.endOfLines (h : Filling request lines [] batches []) :
    Exhausted request lines batches := by
  have hposted := h.posted
  obtain ⟨read, hlines, hread⟩ := h.read
  rw [List.append_nil] at hlines hread
  exact ⟨hlines ▸ hread, hposted.ne_nil, hposted.full, hposted.le⟩

/-- The last batch may be short. -/
theorem Filling.postLast (h : Filling request lines [] batches chunk) (hne : chunk ≠ []) :
    Exhausted request lines (batches ++ [chunk]) := by
  have hposted := h.posted
  obtain ⟨read, hlines, hread⟩ := h.read
  rw [List.append_nil] at hlines
  constructor
  · rw [hlines, hread, List.flatten_append, List.flatten_singleton]
  · intro b hb
    rcases List.mem_append.mp hb with hb | hb
    · exact hposted.ne_nil b hb
    · rw [List.mem_singleton.mp hb]
      exact hne
  · rw [List.dropLast_concat]
    exact h.full
  · intro b hb
    rcases List.mem_append.mp hb with hb | hb
    · exact hposted.le b hb
    · rw [List.mem_singleton.mp hb]
      exact Nat.le_of_lt h.chunk_lt

end Batches

/-- The batches that a task has posted, in order. -/
def Task.batches (t : Task) : List Batch :=
  t.sent.map Job.batch

theorem Task.batches_post (t : Task) (p : Pool) :
    (t.post p).1.batches = t.batches ++ [t.chunk] := by
  rw [post_eq, batches, List.map_append]
  rfl

theorem Task.pending_post (t : Task) (p : Pool) :
    (t.post p).1.pending.length = t.pending.length + 1 := by
  rw [post_eq, List.length_append, List.length_singleton]

/-! ## Chunks under way -/

/-- How far a task has cut its lines, with never more chunks under way than `2 * size`. -/
inductive Chunking (request : Request) (size : Nat) (files : Files) : Task → Files → Prop where
  | opening : Chunking request size files { request } files
  | creating {source : Place} (hne : request.batchSize ≠ 0)
      (hopen : files.openSource request.input = .ok source) :
      Chunking request size files { request, stage := .creating source } files
  | loading {source : Place} {handle : Handle} {opened : Files} (hne : request.batchSize ≠ 0)
      (hopen : files.openSource request.input = .ok source)
      (hcreate : files.create request.output = .ok (handle, opened)) :
      Chunking request size files { request, stage := .loading source { handle } } opened
  | reading {t : Task} {fs : Files} {rest : List Bytes} {w : Writer}
      (hstage : t.stage = .reading rest w)
      (h : Filling request (request.lines files) rest t.batches t.chunk)
      (hpending : t.pending.length ≤ 2 * size) : Chunking request size files t fs
  | draining {t : Task} {fs : Files} {w : Writer} (hstage : t.stage = .draining w)
      (h : Exhausted request (request.lines files) t.batches)
      (hpending : t.pending.length ≤ 2 * size) : Chunking request size files t fs
  | done {t : Task} {fs : Files} {n : Nat} (hstage : t.stage = .ended (.ok n))
      (h : Exhausted request (request.lines files) t.batches) (hpending : t.pending = []) :
      Chunking request size files t fs
  | failed {t : Task} {fs : Files} {f : Failure} (hstage : t.stage = .ended (.error f))
      (h : Posted request (request.lines files) t.batches)
      (hpending : t.pending.length < 2 * size) :
      Chunking request size files t fs

namespace Chunking

theorem of_opening (h : Chunking request size files t fs) (hstage : t.stage = .opening) :
    t = { request } ∧ fs = files := by
  cases h with
  | opening => exact ⟨rfl, rfl⟩
  | creating | loading => cases hstage
  | reading hstage' | draining hstage' | done hstage' | failed hstage' =>
    rw [hstage'] at hstage
    cases hstage

theorem of_creating {source : Place} (h : Chunking request size files t fs)
    (hstage : t.stage = .creating source) :
    t = { request, stage := .creating source } ∧ fs = files ∧ request.batchSize ≠ 0 ∧
      files.openSource request.input = .ok source := by
  cases h with
  | creating hne hopen =>
    cases hstage
    exact ⟨rfl, rfl, hne, hopen⟩
  | opening | loading => cases hstage
  | reading hstage' | draining hstage' | done hstage' | failed hstage' =>
    rw [hstage'] at hstage
    cases hstage

theorem of_loading {source : Place} {w : Writer} (h : Chunking request size files t fs)
    (hstage : t.stage = .loading source w) :
    t = { request, stage := .loading source w } ∧ request.batchSize ≠ 0 ∧
      (∀ content, fs.contentAt source = .ok content →
        request.lines files = Text.lines content) := by
  cases h with
  | loading hne hopen hcreate =>
    cases hstage
    refine ⟨rfl, hne, fun content hcontent => ?_⟩
    rw [Request.lines_eq hopen hcreate, hcontent]
    rfl
  | opening | creating => cases hstage
  | reading hstage' | draining hstage' | done hstage' | failed hstage' =>
    rw [hstage'] at hstage
    cases hstage

theorem of_reading {rest : List Bytes} {w : Writer} (h : Chunking request size files t fs)
    (hstage : t.stage = .reading rest w) :
    Filling request (request.lines files) rest t.batches t.chunk := by
  cases h with
  | reading hstage' h _ =>
    rw [hstage'] at hstage
    cases hstage
    exact h
  | opening | creating | loading => cases hstage
  | draining hstage' | done hstage' | failed hstage' =>
    rw [hstage'] at hstage
    cases hstage

theorem of_draining {w : Writer} (h : Chunking request size files t fs)
    (hstage : t.stage = .draining w) :
    Exhausted request (request.lines files) t.batches := by
  cases h with
  | draining hstage' h _ => exact h
  | opening | creating | loading => cases hstage
  | reading hstage' | done hstage' | failed hstage' =>
    rw [hstage'] at hstage
    cases hstage

theorem pending_le (h : Chunking request size files t fs) : t.pending.length ≤ 2 * size := by
  cases h with
  | opening | creating | loading => exact Nat.zero_le _
  | reading _ _ hpending | draining _ _ hpending => exact hpending
  | done _ _ hpending =>
    rw [hpending]
    exact Nat.zero_le _
  | failed _ _ hpending => exact Nat.le_of_lt hpending

theorem posted (h : Chunking request size files t fs) :
    Posted request (request.lines files) t.batches := by
  cases h with
  | opening | creating | loading => exact posted_nil
  | reading _ h _ => exact h.posted
  | draining _ h _ | done _ h _ => exact h.posted
  | failed _ h _ => exact h

theorem of_result {r : Except Failure Nat} (h : Chunking request size files t fs)
    (hresult : t.result? = some r) :
    (∃ n, r = .ok n ∧ Exhausted request (request.lines files) t.batches ∧ t.pending = []) ∨
      ∃ f, r = .error f ∧ t.pending.length < 2 * size := by
  cases h with
  | opening | creating | loading => cases hresult
  | reading hstage | draining hstage =>
    rw [Task.result?, hstage] at hresult
    cases hresult
  | done hstage h hpending =>
    rw [Task.result?, hstage] at hresult
    cases hresult
    exact .inl ⟨_, rfl, h, hpending⟩
  | failed hstage _ hpending =>
    rw [Task.result?, hstage] at hresult
    cases hresult
    exact .inr ⟨_, rfl, hpending⟩

/-- A step that waits for the oldest chunk goes on where it is, with one chunk less under
way. -/
theorem of_waits {w w' : Writer} {next : Writer → Stage} {job : Job} {rest : List Job} {n : Nat}
    (h : Chunking request size files t fs) (hwaits : t.Waits p w next)
    (hpending : t.pending = job :: rest) :
    Chunking request size files
      { t with stage := next w', pending := rest, written := n } fs' := by
  have hle := h.pending_le
  rw [hpending, List.length_cons] at hle
  have hrest : rest.length ≤ 2 * size := by omega
  cases hwaits with
  | full hstage _ => exact .reading rfl (h.of_reading hstage) hrest
  | draining hstage => exact .draining rfl (h.of_draining hstage) hrest

/-- A step that ends the task with an error keeps what was posted. -/
theorem fail {pending : List Job} {f : Failure} (h : Chunking request size files t fs)
    (hpending : pending.length < 2 * size) :
    Chunking request size files { t with stage := .ended (.error f), pending } fs' :=
  .failed rfl h.posted hpending

theorem step (hsize : 0 < size) (hwindow : Task.window p = 2 * size)
    (hrequest : t.request = request) (h : Chunking request size files t fs)
    (hstep : t.Step p fs t' p' fs') :
    Chunking request size files t' fs' := by
  have hnone : ∀ {job : Job} {rest : List Job}, t.pending = job :: rest →
      rest.length < 2 * size := by
    intro job rest hpending
    have hle := h.pending_le
    rw [hpending, List.length_cons] at hle
    exact hle
  cases hstep with
  | refuse hstage | noSource hstage =>
    obtain ⟨rfl, -⟩ := h.of_opening hstage
    exact h.fail (by simpa using hsize)
  | openSource hstage hne hopen =>
    obtain ⟨rfl, rfl⟩ := h.of_opening hstage
    exact .creating hne hopen
  | noOutput hstage =>
    obtain ⟨rfl, -⟩ := h.of_creating hstage
    exact h.fail (by simpa using hsize)
  | create hstage hcreate =>
    obtain ⟨rfl, rfl, hne, hopen⟩ := h.of_creating hstage
    exact .loading hne hopen hcreate
  | overflow hstage | unreadable hstage =>
    obtain ⟨rfl, -⟩ := h.of_loading hstage
    exact h.fail (by simpa using hsize)
  | load hstage hfits hcontent =>
    obtain ⟨rfl, hne, hlines⟩ := h.of_loading hstage
    exact .reading rfl
      ⟨⟨[], hlines _ hcontent, rfl⟩, nofun, Nat.pos_of_ne_zero hne⟩ h.pending_le
  | invalid hstage hroom => exact h.fail (by omega)
  | read hstage hroom hline hshort =>
    have hfilling := h.of_reading hstage
    rw [hrequest] at hshort
    refine .reading rfl ⟨hfilling.readText hline, hfilling.full, ?_⟩ h.pending_le
    rw [List.length_append, List.length_singleton]
    exact hshort
  | fill hstage hroom hline hfull =>
    rw [hrequest] at hfull
    refine .reading rfl ?_ ?_
    · rw [Task.batches_post]
      exact (h.of_reading hstage).fill hline hfull
    · rw [Task.pending_post, ← hwindow]
      exact hroom
  | endOfLines hstage hroom hempty =>
    have hfilling := h.of_reading hstage
    rw [hempty] at hfilling
    exact .draining rfl hfilling.endOfLines h.pending_le
  | postLast hstage hroom hne =>
    refine .draining rfl ?_ ?_
    · rw [Task.batches_post]
      exact (h.of_reading hstage).postLast hne
    · rw [Task.pending_post, ← hwindow]
      exact hroom
  | failed hwaits hpending => exact h.fail (hnone hpending)
  | wrote hwaits hpending => exact h.of_waits hwaits hpending
  | jammed hwaits hpending => exact h.fail (hnone hpending)
  | done hstage hempty => exact .done rfl (h.of_draining hstage) hempty
  | unflushed hstage hempty => exact h.fail (by rw [hempty]; simpa using hsize)

end Chunking

end DecodingDesk.Document
