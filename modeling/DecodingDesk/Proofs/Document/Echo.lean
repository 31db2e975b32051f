import DecodingDesk.Proofs.Document.ChunkSize
import DecodingDesk.Proofs.Document.Frame
import DecodingDesk.Proofs.Document.Rendering
import DecodingDesk.Proofs.Model.ItemByItem
/-!
# Documents that come back

The echo model gives the words of a line back, so that a document which it has translated is the
input with its blanks put in order: every line ends in a line feed and has one space between its
words.  Translating it once more changes nothing, however both translations are cut into chunks,
and reading it gives back what the model answered.
-/

namespace DecodingDesk.Document

open Model (Echo Output)
open Text (Bytes encode)

/-! ## Into a file -/

/-- A request whose output is a file, with what its input holds when that file has been created:
an output at the place of the input has made it empty. -/
structure IntoFile (request : Request) (files : Files) (content : Bytes) where
  source : Place
  handle : Handle
  opened : Files
  openSource : files.openSource request.input = .ok source
  create : files.create request.output = .ok (handle, opened)
  created : opened.node? handle.place = some (.file [])
  holds : opened.contentAt source = .ok content

namespace IntoFile

variable {request : Request} {files opened : Files} {content : Bytes}

/-- An output that is another file leaves the input as it is. -/
def ofNe {source : Place} {handle : Handle}
    (hfind : files.find request.input = .ok (source, .file content))
    (hcreate : files.create request.output = .ok (handle, opened))
    (hcreated : opened.node? handle.place = some (.file [])) (hne : source ≠ handle.place) :
    IntoFile request files content where
  source := source
  handle := handle
  opened := opened
  openSource := by rw [Files.openSource, hfind]; rfl
  create := hcreate
  created := hcreated
  holds := by
    rw [Files.contentAt, (Files.create_spec hcreate).2.1 _ hne, Files.node?_of_find hfind]

variable (c : IntoFile request files content)
include c

theorem lines_eq : request.lines files = Text.lines content := by
  rw [Request.lines_eq c.openSource c.create, c.holds]
  rfl

theorem kept_eq : files.kept c.handle.place = [] := by
  rw [← Files.received_of_create c.create, Files.received, c.created]

theorem fit_eq (bytes : Bytes) : files.fit c.handle.place bytes = bytes := by
  rw [← Files.fit_congr (Files.limit?_create c.create _), Files.fit, Files.limit?, c.created]

theorem isFile : c.opened.IsFile c.handle.place :=
  ⟨[], c.created⟩

end IntoFile

/-! ## Causes -/

section Cause

variable {request : Request} {files : Files} {content : Bytes} {items : Batch} {p : Pool}
  {waited pending : List Job} {r : Except Failure Nat}

theorem rendering_append (withScores : Bool) (os os' : List Output) :
    rendering withScores (os ++ os') = rendering withScores os ++ rendering withScores os' := by
  simp [rendering, chunkPieces]

theorem flatMap_rendering (withScores : Bool) (answer : Item → Output) (jobs : List Job) :
    jobs.flatMap (fun job => rendering withScores (job.batch.map answer)) =
      rendering withScores ((jobs.map Job.batch).flatten.map answer) := by
  induction jobs with
  | nil => rfl
  | cons job jobs ih =>
    rw [List.flatMap_cons, ih, List.map_cons, List.flatten_cons, List.map_append,
      rendering_append]

/-- A document that is a text and goes into a file ends with a chunk that fails, or with all its
lines. -/
theorem Cause.of_text (c : IntoFile request files content) (hitems : items? content = some items)
    (h : Cause request files c.opened c.handle.place p waited pending r) :
    (∃ job ∈ waited, ∃ e, p.future? job.id = some (.error e) ∧
        r = .error (.error (.engine e))) ∨
      Answered p waited ∧ items = (waited.map Job.batch).flatten ∧ r = .ok items.length := by
  cases h with
  | unreadable hopen hcontent =>
    obtain rfl := Except.ok.inj (c.openSource.symm.trans hopen)
    rw [c.holds] at hcontent
    cases hcontent
  | invalid _ hlines =>
    rw [c.lines_eq] at hlines
    cases hlines.symm.trans hitems
  | failed _ hfuture =>
    exact .inl ⟨_, List.mem_append_right _ (List.mem_singleton_self _), _, hfuture, rfl⟩
  | noSpace _ hlost =>
    rw [c.fit_eq] at hlost
    exact absurd hlost (Nat.lt_irrefl _)
  | complete hanswered hall =>
    rw [c.lines_eq] at hall ⊢
    obtain rfl := Option.some.inj (hitems.symm.trans hall)
    exact .inr ⟨hanswered, rfl, by rw [length_of_itemsOf? hall]⟩

/-- A document whose chunks are answered item by item. -/
theorem Cause.of_answers (c : IntoFile request files content) (hitems : items? content = some items)
    {answer : Item → Output}
    (hreply : ∀ job ∈ waited, ∀ reply, p.future? job.id = some reply →
      reply = .ok (job.batch.map answer))
    (h : Cause request files c.opened c.handle.place p waited pending r) :
    r = .ok items.length ∧ request.goal files c.handle.place p waited =
      rendering request.withScores (items.map answer) := by
  rcases h.of_text c hitems with ⟨job, hjob, e, hfuture, -⟩ | ⟨hanswered, rfl, hr⟩
  · cases hreply job hjob _ hfuture
  · refine ⟨hr, ?_⟩
    rw [Request.goal, c.kept_eq, List.nil_append, ← flatMap_rendering]
    refine List.flatMap_congr fun job hjob => ?_
    obtain ⟨os, hos⟩ := hanswered job hjob
    obtain rfl := Except.ok.inj (hreply job hjob _ hos)
    rw [Request.renderingFor, hos]

/-- A document with lines whose chunks all fail alike. -/
theorem Cause.of_failures (c : IntoFile request files content)
    (hitems : items? content = some items) (hne : items ≠ []) {e : EngineError}
    (hreply : ∀ job ∈ waited, ∀ reply, p.future? job.id = some reply → reply = .error e)
    (h : Cause request files c.opened c.handle.place p waited pending r) :
    r = .error (.error (.engine e)) := by
  rcases h.of_text c hitems with ⟨job, hjob, e', hfuture, hr⟩ | ⟨hanswered, rfl, -⟩
  · cases hreply job hjob _ hfuture
    exact hr
  · -- some chunk has lines, and it has been answered
    obtain ⟨job, hjob⟩ := List.exists_mem_of_ne_nil waited fun hnil => hne (by rw [hnil]; rfl)
    obtain ⟨os, hos⟩ := hanswered job hjob
    cases hreply job hjob _ hos

end Cause

/-! ## Results -/

section Results

variable {e : Echo} {request : Request} {size : Nat} {files : Files} {content : Bytes}
  {items : Batch} {s : Site} {r : Except Failure Nat}

/-- How a model that knows all tokens ends a document: chunks of no lines are refused, and there
may be no room for a chunk, or for the hypotheses of an item. -/
def echoResult (request : Request) (items : Batch) : Except Failure Nat :=
  if request.batchSize = 0 then .error (.error (.options .zeroBatchSize))
  else if fitsMemory request.batchSize = false then .error (.fault .capacityOverflow)
  else if items ≠ [] ∧ fitsMemory (Echo.count request.options) = false then
    .error (.error (.engine (.panicked Fault.capacityOverflow.message)))
  else .ok items.length

/-- What is written for some items. -/
def echoed (e : Echo) (options : Options) (withScores : Bool) (items : Batch) : Bytes :=
  rendering withScores (items.map (e.output options))

/-- Chunks of no lines are refused before anything is opened. -/
theorem Site.Reachable.of_zero {model : Model} {pool : Pool} (hzero : request.batchSize = 0)
    (h : Site.Reachable model { task := { request }, pool, files } s) :
    s.task = { request } ∨ s.task.stage = .ended (.error (.error (.options .zeroBatchSize))) := by
  induction h with
  | start => exact .inl rfl
  | step m _ _ hstep ih =>
    cases m with
    | task =>
      obtain ⟨⟨t', p', fs'⟩, htask, rfl⟩ := Option.map_eq_some_iff.mp hstep
      rcases ih with ih | ih
      · simp only [ih, Task.step?, hzero, if_true] at htask
        cases htask
        exact .inr rfl
      · exact absurd ih ((Task.step_of_step? htask).not_ended _)
    | pool a =>
      obtain ⟨p', -, rfl⟩ := Option.map_eq_some_iff.mp hstep
      exact ih

/-- The items of a document without lines are in no chunk. -/
theorem Site.Kept.sent_eq_nil {posted : List Job} (h : s.Kept request size files posted)
    (hitems : itemsOf? (request.lines files) = some []) : s.task.sent = [] := by
  have hposted := h.chunking.posted
  have hflatten := hposted.isPrefix
  rw [leading_of_itemsOf? hitems, List.prefix_nil, List.flatten_eq_nil_iff] at hflatten
  refine List.eq_nil_iff_forall_not_mem.mpr fun job hjob => ?_
  have hbatch : job.batch ∈ s.task.batches := List.mem_map_of_mem hjob
  exact hposted.ne_nil _ hbatch (hflatten _ hbatch)

/-- Without room for the hypotheses every call fails. -/
theorem answerAlone_of_not_fits (hopen : e.vocabulary = none) {options : Options}
    (hfits : fitsMemory (Echo.count options) = false) {batch : Batch} (hne : batch ≠ []) :
    Pool.answerAlone e.model options batch =
      .error (.panicked Fault.capacityOverflow.message) := by
  obtain ⟨item, rest, rfl⟩ := List.exists_cons_of_ne_nil hne
  have hknown : e.unknownToken? item = none := by
    rw [Echo.unknownToken?, hopen]
  simp [Pool.answerAlone, Echo.model, Echo.outputs, hknown, hfits, Pool.verdict]

/-- How a document ends whose chunks are answered by the model. -/
theorem Cause.of_answerAlone {p : Pool} {waited pending : List Job} (hopen : e.vocabulary = none)
    (c : IntoFile request files content) (hitems : items? content = some items)
    (hne : ∀ job ∈ waited, job.batch ≠ []) (hnil : items = [] → waited = [])
    (hreply : ∀ job ∈ waited, ∀ reply, p.future? job.id = some reply →
      reply = Pool.answerAlone e.model request.options job.batch)
    (h : Cause request files c.opened c.handle.place p waited pending r) :
    r = (if items ≠ [] ∧ fitsMemory (Echo.count request.options) = false then
        .error (.error (.engine (.panicked Fault.capacityOverflow.message)))
      else .ok items.length) ∧ ∀ n, r = .ok n →
        request.goal files c.handle.place p waited =
          echoed e request.options request.withScores items := by
  by_cases hroom : items ≠ [] ∧ fitsMemory (Echo.count request.options) = false
  · obtain rfl := h.of_failures c hitems hroom.1 fun job hjob reply hfuture =>
      (hreply job hjob reply hfuture).trans (answerAlone_of_not_fits hopen hroom.2 (hne job hjob))
    rw [if_pos hroom]
    exact ⟨rfl, fun _ hok => by cases hok⟩
  · have hanswers : ∀ job ∈ waited, ∀ reply, p.future? job.id = some reply →
        reply = .ok (job.batch.map (e.output request.options)) := by
      intro job hjob reply hfuture
      rw [hreply job hjob reply hfuture]
      cases hcount : fitsMemory (Echo.count request.options) with
      | true => exact Echo.answerAlone_of_open hopen hcount _
      | false =>
        -- without lines there is no chunk
        have hnone := hnil (Classical.not_not.mp fun hlines => hroom ⟨hlines, hcount⟩)
        cases hnone ▸ hjob
    obtain ⟨rfl, hgoal⟩ := h.of_answers c hitems hanswers
    rw [if_neg hroom]
    exact ⟨rfl, fun _ _ => hgoal⟩

theorem Site.Kept.result_eq {posted : List Job} (hopen : e.vocabulary = none)
    (c : IntoFile request files content) (hitems : items? content = some items)
    (hne : request.batchSize ≠ 0) (h : s.Kept request size files posted)
    (hshared : Shared e.model size s.pool) (hresult : s.task.result? = some r) :
    r = echoResult request items ∧ ∀ n, r = .ok n →
      s.files.received c.handle.place = echoed e request.options request.withScores items := by
  rw [echoResult, if_neg hne]
  cases h.delivery.ending hresult with
  | refused _ _ hrefusal =>
    rcases hrefusal with hzero | hsource | houtput
    · exact absurd hzero hne
    · cases hsource.symm.trans c.openSource
    · cases houtput.symm.trans c.create
  | overflow _ _ _ hfits =>
    rw [if_pos hfits]
    exact ⟨rfl, fun _ hok => by cases hok⟩
  | @stopped _ _ _ waited _ hfits hcreate hsent hreceived hcause =>
    cases c.create.symm.trans hcreate
    rw [c.fit_eq] at hreceived
    have hmem : ∀ job ∈ waited, job ∈ s.task.sent := fun job hjob =>
      hsent ▸ List.mem_append_left _ hjob
    have hnil : items = [] → waited = [] := by
      rintro rfl
      have hnone := h.sent_eq_nil (c.lines_eq ▸ hitems)
      exact (List.append_eq_nil_iff.mp (hsent.symm.trans hnone)).1
    rw [if_neg (by rw [hfits]; exact Bool.noConfusion), hreceived]
    exact hcause.of_answerAlone hopen c hitems
      (fun job hjob => h.chunking.posted.ne_nil _ (List.mem_map_of_mem (hmem job hjob))) hnil
      fun job hjob _ => h.eq_answerAlone hshared (h.sent ▸ hmem job hjob)

theorem Site.Reachable.result_eq (hopen : e.vocabulary = none)
    (c : IntoFile request files content) (hitems : items? content = some items) (hsize : 0 < size)
    (h : Site.Reachable e.model { task := { request }, pool := Pool.start size, files } s)
    (hresult : s.task.result? = some r) :
    r = echoResult request items ∧ ∀ n, r = .ok n →
      s.files.received c.handle.place = echoed e request.options request.withScores items := by
  by_cases hzero : request.batchSize = 0
  · rw [echoResult, if_pos hzero]
    rcases h.of_zero hzero with htask | hended
    · rw [htask] at hresult
      cases hresult
    · rw [Task.result?, hended] at hresult
      cases hresult
      exact ⟨rfl, fun _ hok => by cases hok⟩
  · obtain ⟨hshared, posted, hkept⟩ := Site.Reachable.kept (m := request.batchSize) hsize h
    exact hkept.result_eq hopen c hitems hzero hshared hresult

end Results

/-! ## Translations -/

section Translations

variable {e : Echo} {options : Options} {withScores : Bool} {content : Bytes} {items : Batch}

/-- What holds of a document that goes into a file, in a pool that others use too: in every run
in which nobody is passed over for ever it ends; it ends with one result; and if it succeeds, its
output is a file of some bytes. -/
structure Settles (model : Model) (request : Request) (size : Nat) (files : Files)
    (result : Except Failure Nat) (place : Place) (out : Bytes) : Prop where
  ends : ∀ run : Site.Run model { task := { request }, pool := Pool.start size, files }, run.Fair →
    ∃ n r, (run.site n).task.result? = some r
  result_eq : ∀ s r,
    Site.Reachable model { task := { request }, pool := Pool.start size, files } s →
      s.task.result? = some r → r = result
  output_eq : ∀ s n,
    Site.Reachable model { task := { request }, pool := Pool.start size, files } s →
      s.task.result? = some (.ok n) → s.files.find request.output = .ok (place, .file out)

/-- Whether some content with some items is translated to some bytes, wherever it is, in chunks
of any size and a pool of any size. -/
def Translates (e : Echo) (options : Options) (withScores : Bool) (content : Bytes)
    (items : Batch) (out : Bytes) : Prop :=
  ∀ (request : Request) (size : Nat) (files : Files) (c : IntoFile request files content),
    request.options = options → request.withScores = withScores → 0 < size →
      Settles e.model request size files (echoResult request items) c.handle.place out

theorem translates_echoed (hopen : e.vocabulary = none) (hitems : items? content = some items) :
    Translates e options withScores content items (echoed e options withScores items) := by
  rintro request size files c rfl rfl hsize
  refine ⟨fun run hfair => ?_, fun s r hreach hresult => ?_, fun s n hreach hresult => ?_⟩
  · refine run.exists_result_of_ready hfair hsize (Echo.model_ne_lethal e) fun n _ => ?_
    obtain ⟨hshared, posted, h⟩ :=
      Site.Reachable.kept (m := request.batchSize) hsize (run.reachable n)
    exact h.ready hshared
  · exact (hreach.result_eq hopen c hitems hsize hresult).1
  · rw [← (hreach.result_eq hopen c hitems hsize hresult).2 n rfl]
    exact (hreach.located c.create c.isFile).find_output c.create hresult

/-! ## What is written -/

theorem worded_map_output (hitems : items? content = some items) :
    Worded (items.map (e.output options)) := by
  intro o ho tokens htokens token htoken
  obtain ⟨item, hitem, rfl⟩ := List.mem_map.mp ho
  obtain ⟨rank, -, rfl⟩ := List.mem_map.mp htokens
  rw [Echo.hypothesis_eq] at htoken
  have hrotate := (List.mem_filter.mp (List.mem_of_mem_take htoken)).1
  exact isWord_of_items? hitems item hitem token (List.mem_rotate.mp hrotate)

/-- What is written without scores is read back as all hypotheses. -/
theorem items?_echoed (hitems : items? content = some items) :
    items? (echoed e options false items) =
      some (items.flatMap fun item => (e.output options item).hypotheses) := by
  rw [echoed, items?_rendering (worded_map_output hitems), List.flatMap_map]
  intro o ho
  obtain ⟨item, -, rfl⟩ := List.mem_map.mp ho
  simp [Echo.output]

/-- An item that is not longer than allowed has its rotations as hypotheses. -/
theorem hypotheses_of_free
    (hfree : options.params.restrictVocabulary = false ∨ e.vocabularyMap = none) {item : Item}
    (hlong : item.length ≤ options.params.maxDecodingLength.toNat) :
    (e.output options item).hypotheses = (List.range (Echo.count options)).map item.rotate := by
  refine List.map_congr_left fun rank _ => ?_
  rw [Echo.hypothesis_of_free hfree, List.take_of_length_le (by rwa [List.length_rotate])]

theorem count_of_one (hone : options.params.numHypotheses = 1) : Echo.count options = 1 := by
  have hbeam : options.params.beamSize.toNat ≠ 0 := fun hzero =>
    options.valid.beamSize_ne_zero (UInt64.toNat_inj.mp hzero)
  rw [Echo.count, hone]
  show min 1 _ = 1
  omega

section One

variable (hfree : options.params.restrictVocabulary = false ∨ e.vocabularyMap = none)
  (hone : options.params.numHypotheses = 1)
include hfree hone

/-- One hypothesis for an item is the item itself. -/
theorem hypotheses_of_one {item : Item}
    (hlong : item.length ≤ options.params.maxDecodingLength.toNat) :
    (e.output options item).hypotheses = [item] := by
  rw [hypotheses_of_free hfree hlong, count_of_one hone, List.range_one, List.map_singleton,
    List.rotate_zero]

theorem scored_of_one
    (hlong : ∀ item ∈ items, item.length ≤ options.params.maxDecodingLength.toNat) :
    scored (items.map (e.output options)) = items.map fun item => (item, Echo.score options 0) := by
  rw [scored, List.flatMap_map, List.map_eq_flatMap]
  refine List.flatMap_congr fun item hitem => ?_
  have hscores : (e.output options item).scores =
      (List.range (Echo.count options)).map (Echo.score options) := rfl
  rw [hypotheses_of_one hfree hone (hlong item hitem), hscores, count_of_one hone]
  rfl

/-- Each item has a line, with one space between its words. -/
theorem map_lineText_of_one
    (hlong : ∀ item ∈ items, item.length ≤ options.params.maxDecodingLength.toNat) :
    ((scored (items.map (e.output options))).map fun h => encode (lineText false h.1 h.2)) =
      items.map fun item => encode (" ".intercalate item) := by
  rw [scored_of_one hfree hone hlong, List.map_map]
  refine List.map_congr_left fun item _ => congrArg encode ?_
  exact String.empty_append

end One

/-- How a document with some items comes back. -/
structure ComesBack (e : Echo) (options : Options) (content : Bytes) (items : Batch) : Prop where
  /-- Every line is an item, which counts in the result. -/
  length_eq : items.length = (Text.lines content).length
  translates : ∀ withScores,
    Translates e options withScores content items (echoed e options withScores items)
  /-- With one hypothesis, which there is always room for, each line is written with one space
  between its words.  What is written has these lines, and translating it once more changes
  nothing. -/
  one : options.params.numHypotheses = 1 → fitsMemory (Echo.count options) = true ∧
    echoed e options false items =
      (items.flatMap fun item => encode (" ".intercalate item) ++ [Text.lineFeed]) ∧
    Text.lines (echoed e options false items) =
      (items.map fun item => encode (" ".intercalate item)) ∧
    Translates e options false (echoed e options false items) items
      (echoed e options false items)
  /-- All hypotheses are read back in order, the best one of an item first. -/
  items?_eq : items? (echoed e options false items) = some (items.flatMap fun item =>
    (List.range (min options.params.numHypotheses.toNat options.params.beamSize.toNat)).map
      item.rotate)
  /-- Behind the first bars of each line stands the line without a score. -/
  afterBars : ∃ cut, (Text.lines (echoed e options true items)).mapM afterBars? = some cut ∧
    echoed e options false items = cut.flatMap (· ++ [Text.lineFeed])

theorem comesBack (hopen : e.vocabulary = none)
    (hfree : options.params.restrictVocabulary = false ∨ e.vocabularyMap = none)
    (hitems : items? content = some items)
    (hlong : ∀ item ∈ items, item.length ≤ options.params.maxDecodingLength.toNat) :
    ComesBack e options content items where
  length_eq := length_of_itemsOf? hitems
  translates withScores := translates_echoed hopen hitems
  one hone := by
    have hall : items? (echoed e options false items) = some items := by
      rw [items?_echoed hitems, List.flatMap_congr fun item hitem =>
        hypotheses_of_one hfree hone (hlong item hitem), List.flatMap_singleton']
    refine ⟨by rw [count_of_one hone]; rfl, ?_, ?_, translates_echoed hopen hall⟩
    · rw [echoed, rendering_eq_flatMap, map_lineText_of_one hfree hone hlong, List.flatMap_map]
    · rw [echoed, lines_rendering (worded_map_output hitems),
        map_lineText_of_one hfree hone hlong]
  items?_eq := by
    rw [items?_echoed hitems]
    congr 1
    exact List.flatMap_congr fun item hitem => hypotheses_of_free hfree (hlong item hitem)
  afterBars := by
    have hworded : Worded (items.map (e.output options)) := worded_map_output hitems
    refine ⟨_, mapM_afterBars?_lines hworded, ?_⟩
    rw [lines_rendering hworded, echoed, rendering_eq_flatMap]

/-- Every text comes back from a model that knows all tokens and generates all, if no line has
more tokens than a hypothesis may have. -/
theorem text_comes_back (hopen : e.vocabulary = none)
    (hfree : options.params.restrictVocabulary = false ∨ e.vocabularyMap = none) (text : String) :
    ∃ items, items? (encode text) = some items ∧
      ((∀ item ∈ items, item.length ≤ options.params.maxDecodingLength.toNat) →
        ComesBack e options (encode text) items) := by
  obtain ⟨items, hitems⟩ := exists_items?_encode text
  exact ⟨items, hitems, comesBack hopen hfree hitems⟩

end Translations

/-- Blanks of several kinds, a line end of two bytes, an empty line and a line without an end. -/
def blankText : String :=
  "\tb \u00a0a\r\n\nx"

theorem items?_blankText : items? (encode blankText) = some [["b", "a"], [], ["x"]] := by
  decide +kernel

def blankFiles : Files :=
  Files.empty.set ["work", "in"] (.file (encode blankText))

def allAtOnce : Request where
  input := "in"
  output := "out"
  batchSize := 3
  options := .default
  withScores := false

def backAgain : Request :=
  { allAtOnce with input := "out", output := "again" }

/-- Three lines in one chunk that they fill. -/
def threeLinesAtOnce : List Site.Move :=
  [.task, .task, .task, .task, .task, .task, .pool (.notify none), .pool (.look 0),
   .pool (.finish 0 (Echo.model {} [["b", "a"], [], ["x"]] .default)), .task, .task, .task]

theorem possible_allAtOnce : Site.Possible (Echo.model {})
    { task := { request := allAtOnce }, pool := Pool.start 1, files := blankFiles }
    threeLinesAtOnce := by
  iterate 8 refine ⟨trivial, _, rfl, ?_⟩
  refine ⟨by rintro job ⟨⟩; rfl, _, rfl, ?_⟩
  exact ⟨trivial, _, rfl, trivial, _, rfl, trivial, _, rfl, trivial⟩

/-- The files when the three lines have been translated. -/
def filesAfterward : Files :=
  ((Site.Run.ofMoves _ possible_allAtOnce).site 12).files

theorem possible_backAgain : Site.Possible (Echo.model {})
    { task := { request := backAgain }, pool := Pool.start 1, files := filesAfterward }
    threeLinesAtOnce := by
  iterate 8 refine ⟨trivial, _, rfl, ?_⟩
  refine ⟨by rintro job ⟨⟩; rfl, _, rfl, ?_⟩
  exact ⟨trivial, _, rfl, trivial, _, rfl, trivial, _, rfl, trivial⟩

theorem text_comes_back_blanks : ∃ s s',
    Site.Reachable (Echo.model {})
      { task := { request := allAtOnce }, pool := Pool.start 1, files := blankFiles } s ∧
    s.task.result? = some (.ok 3) ∧
    s.files.find "out" = .ok (["work", "out"], .file (encode "b a\n\nx\n")) ∧
    Site.Reachable (Echo.model {})
      { task := { request := backAgain }, pool := Pool.start 1, files := s.files } s' ∧
    s'.task.result? = some (.ok 3) ∧
    s'.files.find "again" = .ok (["work", "again"], .file (encode "b a\n\nx\n")) := by
  obtain ⟨items, hitems, hback⟩ := @text_comes_back {} .default rfl (.inl rfl) blankText
  obtain rfl : items = _ := Option.some.inj (hitems.symm.trans items?_blankText)
  have hcomes := hback (by decide)
  obtain ⟨-, hwritten, -, hagain⟩ := hcomes.one rfl
  have hout : echoed {} .default false [["b", "a"], [], ["x"]] = encode "b a\n\nx\n" := by
    rw [hwritten]
    decide +kernel
  have hfirst := (Site.Run.ofMoves _ possible_allAtOnce).reachable 12
  have hsecond := (Site.Run.ofMoves _ possible_backAgain).reachable 12
  have hsettles := hcomes.translates false allAtOnce 1 blankFiles (.ofNe rfl rfl rfl (by decide))
    rfl rfl Nat.one_pos
  rw [hout] at hsettles hagain
  have hfind := hsettles.output_eq _ 3 hfirst rfl
  have hsettles' := hagain backAgain 1 _ (.ofNe hfind rfl rfl (by decide)) rfl rfl Nat.one_pos
  exact ⟨_, _, hfirst, rfl, hfind, hsecond, rfl, hsettles'.output_eq _ 3 hsecond rfl⟩

def hugeChunks : Request :=
  { allAtOnce with batchSize := UInt64.size - 1 }

/-- A text need not come back in chunks of every positive size in 64 bits: nothing is written if
there is no room for a chunk. -/
theorem not_comes_back_of_pos : ¬ ∀ (e : Echo) (request : Request) (size : Nat) (files : Files)
    (text : String) (items : Batch) (c : IntoFile request files (encode text)) (s : Site)
    (r : Except Failure Nat), e.vocabulary = none →
      (request.options.params.restrictVocabulary = false ∨ e.vocabularyMap = none) →
      items? (encode text) = some items →
      (∀ item ∈ items, item.length ≤ request.options.params.maxDecodingLength.toNat) →
      request.options.params.numHypotheses = 1 → request.withScores = false →
      0 < size → 0 < request.batchSize → request.batchSize < UInt64.size →
      Site.Reachable e.model { task := { request }, pool := Pool.start size, files } s →
      s.task.result? = some r →
        r = .ok items.length ∧ s.files.find request.output = .ok (c.handle.place,
          .file (items.flatMap fun item => encode (" ".intercalate item) ++ [Text.lineFeed])) := by
  intro h
  have hstart : Site.Reachable (Echo.model {})
      { task := { request := hugeChunks }, pool := Pool.start 1, files := blankFiles } _ := .start
  have hreach := ((hstart.step .task trivial rfl).step .task trivial rfl).step .task trivial rfl
  obtain ⟨hok, -⟩ := h {} hugeChunks 1 blankFiles _ _ (.ofNe rfl rfl rfl (by decide)) _ _ rfl
    (.inl rfl) items?_blankText (by decide) rfl rfl Nat.one_pos (by decide) (by decide) hreach rfl
  cases hok

end DecodingDesk.Document
