import DecodingDesk.Proofs.Document.Delivery
import DecodingDesk.Proofs.Document.Refinement
/-!
# How large a chunk may be

The room for a whole chunk is allocated before the first line is read, and after the output has
been made empty.  A chunk size for which there is no such room ends the document with a fault
there; every other one is as good as the number of lines, as soon as it is as large, for then
the lines are posted in one chunk or not at all.
-/

namespace DecodingDesk.Document

open Model (Output)
open Text (Bytes)

variable {model : Model} {request : Request} {size : Nat} {files opened : Files} {handle : Handle}
  {content : Bytes} {t : Task} {p : Pool} {fs : Files} {r : Except Failure Nat}

/-! ## An input that is read and an output that is created -/

/-- The lines that a task finds are no more than those of its input. -/
theorem Request.length_lines_le (hread : files.read request.input = .ok content)
    (hcreate : files.create request.output = .ok (handle, opened)) :
    (request.lines files).length ≤ (Text.lines content).length := by
  obtain ⟨source, hopen, hcontent⟩ := Files.read_eq_ok.mp hread
  rw [Request.lines_eq hopen hcreate]
  rcases Files.contentAt_of_create hcreate hcontent with hsame | hempty
  · rw [hsame]
    exact Nat.le_refl _
  · rw [hempty]
    exact Nat.zero_le _

theorem Refusal.not (hne : request.batchSize ≠ 0) (hread : files.read request.input = .ok content)
    (hcreate : files.create request.output = .ok (handle, opened)) :
    ¬ Refusal request files r := by
  rintro (hzero | hopen | hfault)
  · exact hne hzero
  · obtain ⟨source, hsource, -⟩ := Files.read_eq_ok.mp hread
    rw [hopen] at hsource
    cases hsource
  · rw [hcreate] at hfault
    cases hfault

theorem Ending.stopped_of_fits (hne : request.batchSize ≠ 0)
    (hfits : fitsMemory request.batchSize = true)
    (hread : files.read request.input = .ok content)
    (hcreate : files.create request.output = .ok (handle, opened))
    (h : Ending request files t p fs r) :
    ∃ waited, t.sent = waited ++ t.pending ∧
      fs.received handle.place =
        files.fit handle.place (request.goal files handle.place p waited) ∧
      Cause request files opened handle.place p waited t.pending r := by
  cases h with
  | refused _ _ hrefusal => exact absurd hrefusal (Refusal.not hne hread hcreate)
  | overflow _ _ _ hnot =>
    rw [hfits] at hnot
    cases hnot
  | stopped _ hcreate' hsent hreceived hcause =>
    rw [hcreate] at hcreate'
    cases hcreate'
    exact ⟨_, hsent, hreceived, hcause⟩

/-- Without room for a chunk the document ends in a fault, when its output has been made empty
and nothing posted. -/
theorem Ending.overflow_of_not_fits (hne : request.batchSize ≠ 0)
    (hfits : fitsMemory request.batchSize = false)
    (hread : files.read request.input = .ok content)
    (hcreate : files.create request.output = .ok (handle, opened))
    (h : Ending request files t p fs r) :
    r = .error (.fault .capacityOverflow) ∧ fs = opened ∧ t.sent = [] := by
  cases h with
  | refused _ _ hrefusal => exact absurd hrefusal (Refusal.not hne hread hcreate)
  | overflow hsent _ hcreate' =>
    rw [hcreate] at hcreate'
    cases hcreate'
    exact ⟨rfl, rfl, hsent⟩
  | stopped hyes =>
    rw [hfits] at hyes
    cases hyes

/-- A document that is read and written does not end in a fault. -/
theorem Cause.ne_fault {place : Place} {waited pending : List Job}
    (h : Cause request files opened place p waited pending r) (f : Fault) :
    r ≠ .error (.fault f) := by
  rintro rfl
  cases h

/-! ## One chunk -/

/-- What a document comes to in one chunk, and what its output has received then. -/
def Request.atOnce (model : Model) (r : Request) (files : Files) (place : Place) :
    Except Failure Nat × Bytes :=
  match itemsOf? (r.lines files) with
  | none => (.error (.error (.io r.input .invalidUtf8)), files.kept place)
  | some [] => (.ok 0, files.kept place)
  | some items =>
    match Pool.answerAlone model r.options items with
    | .error e => (.error (.error (.engine e)), files.kept place)
    | .ok os =>
      let goal := files.kept place ++ rendering r.withScores os
      (if (files.fit place goal).length < goal.length then
          .error (.error (.io r.output .noSpace))
        else .ok items.length,
        files.fit place goal)

theorem Request.atOnce_of_error {items : Batch} {place : Place} {e : EngineError}
    (hitems : itemsOf? (request.lines files) = some items) (hne : items ≠ [])
    (halone : Pool.answerAlone model request.options items = .error e) :
    request.atOnce model files place = (.error (.error (.engine e)), files.kept place) := by
  unfold Request.atOnce
  rw [hitems]
  split
  · contradiction
  · exact absurd (Option.some.inj ‹_›) hne
  · cases ‹some items = some _›
    rw [halone]

theorem Request.atOnce_of_ok {items : Batch} {place : Place} {os : List Output}
    (hitems : itemsOf? (request.lines files) = some items) (hne : items ≠ [])
    (halone : Pool.answerAlone model request.options items = .ok os) :
    request.atOnce model files place =
      (if (files.fit place (files.kept place ++ rendering request.withScores os)).length <
          (files.kept place ++ rendering request.withScores os).length then
        .error (.error (.io request.output .noSpace)) else .ok items.length,
        files.fit place (files.kept place ++ rendering request.withScores os)) := by
  unfold Request.atOnce
  rw [hitems]
  split
  · contradiction
  · exact absurd (Option.some.inj ‹_›) hne
  · cases ‹some items = some _›
    rw [halone]

section AtOnce

variable {place : Place} {waited pending : List Job}

theorem Request.fit_goal_nil (request : Request) (files : Files) (place : Place) (p : Pool) :
    request.goal files place p [] = files.kept place ∧
      files.fit place (request.goal files place p []) = files.kept place := by
  have hgoal : request.goal files place p [] = files.kept place := by
    rw [Request.goal, List.flatMap_nil, List.append_nil]
  exact ⟨hgoal, by rw [hgoal, files.fit_kept]⟩

/-- Lines of which none is posted are none, or one of them is no text. -/
theorem Cause.eq_atOnce_of_nil (hnil : waited ++ pending = [])
    (hreadable : ∀ source, files.openSource request.input = .ok source →
      ∃ content, opened.contentAt source = .ok content)
    (h : Cause request files opened place p waited pending r) :
    (r, files.fit place (request.goal files place p waited)) =
      request.atOnce model files place := by
  obtain ⟨hwaited, -⟩ := List.append_eq_nil_iff.mp hnil
  obtain ⟨hgoal, hfit⟩ := request.fit_goal_nil files place p
  cases h with
  | unreadable hopen hcontent =>
    obtain ⟨content, hok⟩ := hreadable _ hopen
    rw [hcontent] at hok
    cases hok
  | invalid _ hlines =>
    subst hwaited
    rw [hfit, Request.atOnce, hlines]
  | failed => exact absurd hwaited (List.append_ne_nil_of_right_ne_nil _ nofun)
  | noSpace _ hlost =>
    subst hwaited
    rw [hfit, hgoal] at hlost
    exact absurd hlost (Nat.lt_irrefl _)
  | complete _ hitems =>
    subst hwaited
    rw [hfit, Request.atOnce, hitems, ← length_of_itemsOf? hitems]
    rfl

/-- Lines that are posted in one chunk have the result of that chunk. -/
theorem Cause.eq_atOnce_of_singleton {job : Job}
    (hitems : itemsOf? (request.lines files) = some job.batch) (hne : job.batch ≠ [])
    (hjob : waited ++ pending = [job])
    (hreply : ∀ reply, p.future? job.id = some reply →
      reply = Pool.answerAlone model request.options job.batch)
    (h : Cause request files opened place p waited pending r) :
    (r, files.fit place (request.goal files place p waited)) =
      request.atOnce model files place := by
  obtain ⟨hgoal, hfit⟩ := request.fit_goal_nil files place p
  have hanswer : waited = [job] → Answered p waited → ∃ os,
      Pool.answerAlone model request.options job.batch = .ok os ∧
        request.goal files place p waited =
          files.kept place ++ rendering request.withScores os := by
    rintro rfl hanswered
    obtain ⟨os, hos⟩ := hanswered job List.mem_cons_self
    refine ⟨os, (hreply _ hos).symm, ?_⟩
    rw [Request.goal, List.flatMap_singleton, Request.renderingFor, hos]
  cases h with
  | unreadable => cases hjob
  | invalid _ hlines =>
    rw [hitems] at hlines
    cases hlines
  | @failed front pending job' e _ hfuture =>
    -- the one job is the one that failed
    obtain ⟨rfl, rfl, rfl⟩ : front = [] ∧ job' = job ∧ pending = [] := by
      cases front with
      | nil => simpa using hjob
      | cons => simp at hjob
    rw [Request.atOnce_of_error hitems hne (hreply _ hfuture).symm, Request.goal_concat,
      Request.renderingFor, hfuture, List.append_nil, hfit]
  | noSpace hanswered hlost =>
    rcases List.append_eq_singleton_iff.mp hjob with ⟨rfl, -⟩ | ⟨hwaited, -⟩
    · rw [hfit, hgoal] at hlost
      exact absurd hlost (Nat.lt_irrefl _)
    · obtain ⟨os, halone, hgoal⟩ := hanswer hwaited hanswered
      rw [hgoal] at hlost ⊢
      rw [Request.atOnce_of_ok hitems hne halone, if_pos hlost]
  | complete hanswered _ hwhole =>
    rw [List.append_nil] at hjob
    obtain ⟨os, halone, hgoal⟩ := hanswer hjob hanswered
    rw [hgoal] at hwhole ⊢
    rw [Request.atOnce_of_ok hitems hne halone, hwhole, if_neg (Nat.lt_irrefl _),
      length_of_itemsOf? hitems]

end AtOnce

/-- A chunk size as large as the number of lines has the result of one chunk. -/
theorem Site.Kept.eq_atOnce {posted : List Job} {s : Site}
    (h : s.Kept request size files posted) (hshared : Shared model size s.pool)
    (hread : files.read request.input = .ok content)
    (hcreate : files.create request.output = .ok (handle, opened))
    (hne : request.batchSize ≠ 0) (hfits : fitsMemory request.batchSize = true)
    (hle : (Text.lines content).length ≤ request.batchSize) (hresult : s.task.result? = some r) :
    (r, s.files.received handle.place) = request.atOnce model files handle.place := by
  obtain ⟨waited, hsent, hreceived, hcause⟩ :=
    (h.delivery.ending hresult).stopped_of_fits hne hfits hread hcreate
  have hlines := (Request.length_lines_le hread hcreate).trans hle
  rw [hreceived]
  rcases h.chunking.posted.at_most_one hlines hne with hnone | ⟨items, hitems, hitems_ne, hone⟩
  · refine hcause.eq_atOnce_of_nil ?_ ?_
    · rw [← hsent]
      exact List.map_eq_nil_iff.mp hnone
    · intro source hopen
      obtain ⟨source', hopen', hcontent⟩ := Files.read_eq_ok.mp hread
      obtain rfl : source = source' := Except.ok.inj (hopen.symm.trans hopen')
      rcases Files.contentAt_of_create hcreate hcontent with hok | hok <;> exact ⟨_, hok⟩
  · obtain ⟨job, hjob, rfl⟩ := List.map_eq_singleton_iff.mp hone
    refine hcause.eq_atOnce_of_singleton hitems hitems_ne (hsent ▸ hjob) fun reply hreply =>
      h.eq_answerAlone hshared ?_ hreply
    rw [← h.sent, hjob]
    exact List.mem_cons_self

/-- Whether a document ends in a fault is settled by the chunk size alone. -/
theorem Site.Kept.fault_iff {posted : List Job} {s : Site}
    (h : s.Kept request size files posted)
    (hread : files.read request.input = .ok content)
    (hcreate : files.create request.output = .ok (handle, opened))
    (hne : request.batchSize ≠ 0) (hresult : s.task.result? = some r) :
    ((∃ f, r = .error (.fault f)) ↔ fitsMemory request.batchSize = false) ∧
      (fitsMemory request.batchSize = false →
        r = .error (.fault .capacityOverflow) ∧ s.files = opened) := by
  have hending := h.delivery.ending hresult
  cases hfits : fitsMemory request.batchSize with
  | false =>
    obtain ⟨hr, hfiles, -⟩ := hending.overflow_of_not_fits hne hfits hread hcreate
    exact ⟨⟨fun _ => rfl, fun _ => ⟨_, hr⟩⟩, fun _ => ⟨hr, hfiles⟩⟩
  | true =>
    obtain ⟨waited, -, -, hcause⟩ := hending.stopped_of_fits hne hfits hread hcreate
    exact ⟨⟨fun ⟨f, hf⟩ => absurd hf (hcause.ne_fault f), nofun⟩, nofun⟩

/-! ## Every chunk size -/

/-- A document before its first step, in chunks of some size, and a new pool. -/
def Site.inChunksOf (m : Nat) (request : Request) (size : Nat) (files : Files) : Site where
  task := { request := { request with batchSize := m } }
  pool := Pool.start size
  files := files

/-- What holds of a document in chunks of some size at every moment. -/
theorem Site.Reachable.kept {m : Nat} {s : Site} (hsize : 0 < size)
    (h : Site.Reachable model (Site.inChunksOf m request size files) s) :
    Shared model size s.pool ∧
      ∃ posted, s.Kept { request with batchSize := m } size files posted := by
  obtain ⟨hshared, posted, hlater⟩ := h.later (shared_start model size)
  exact ⟨hshared, posted, hlater.kept hsize .start rfl⟩

theorem Site.Kept.ready {posted : List Job} {s : Site} (h : s.Kept request size files posted)
    (hshared : Shared model size s.pool) : s.Ready model size := by
  refine ⟨hshared, fun job hj => h.mem_posted job ?_⟩
  obtain ⟨waited, hsent, -⟩ := h.delivery.exists_waited
  rw [hsent]
  exact List.mem_append_right _ hj

theorem fitsMemory_of_le {m n : Nat} (hle : n ≤ m) (hfits : fitsMemory m = true) :
    fitsMemory n = true := by
  unfold fitsMemory at hfits ⊢
  rw [decide_eq_true_eq] at hfits ⊢
  omega

/-- For an input that can be read and an output that can be created: a positive chunk size ends
the document in a fault exactly if there is no room for a chunk, and then when the output has
been made empty.  All others that are as large as the number of lines have the same result and
give the output the same bytes; and with each of them every fair run ends, unless the model
kills workers. -/
theorem Site.usable_chunk_sizes {m : Nat} (hsize : 0 < size)
    (hread : files.read request.input = .ok content)
    (hcreate : files.create request.output = .ok (handle, opened)) (hm : m ≠ 0) :
    (∀ s r, Site.Reachable model (Site.inChunksOf m request size files) s →
      s.task.result? = some r →
        ((∃ f, r = .error (.fault f)) ↔ fitsMemory m = false) ∧
        (fitsMemory m = false → r = .error (.fault .capacityOverflow) ∧ s.files = opened)) ∧
    (fitsMemory m = true → max 1 (Text.lines content).length ≤ m → ∀ s r s' r',
      Site.Reachable model (Site.inChunksOf m request size files) s →
      s.task.result? = some r →
      Site.Reachable model
        (Site.inChunksOf (max 1 (Text.lines content).length) request size files) s' →
      s'.task.result? = some r' →
        r = r' ∧ s.files.received handle.place = s'.files.received handle.place) ∧
    ((∀ batch options, model batch options ≠ .panicked .lethal) →
      ∀ run : Site.Run model (Site.inChunksOf m request size files), run.Fair →
        ∃ n r, (run.site n).task.result? = some r) := by
  refine ⟨fun s r hreach hresult => ?_, ?_, ?_⟩
  · obtain ⟨-, posted, hkept⟩ := hreach.kept hsize
    exact hkept.fault_iff hread hcreate hm hresult
  · intro hfits hle s r s' r' hreach hresult hreach' hresult'
    have hone : max 1 (Text.lines content).length ≠ 0 := by omega
    obtain ⟨hshared, posted, hkept⟩ := hreach.kept hsize
    obtain ⟨hshared', posted', hkept'⟩ := hreach'.kept hsize
    have hlarge := hkept.eq_atOnce hshared hread hcreate hm hfits
      (Nat.le_trans (Nat.le_max_right _ _) hle) hresult
    have hleast := hkept'.eq_atOnce hshared' hread hcreate hone (fitsMemory_of_le hle hfits)
      (Nat.le_max_right _ _) hresult'
    exact Prod.mk.inj (hlarge.trans hleast.symm)
  · intro hmodel run hfair
    refine run.exists_result_of_ready hfair hsize hmodel fun n _ => ?_
    obtain ⟨hshared, posted, hkept⟩ := (run.reachable n).kept hsize
    exact hkept.ready hshared

/-- Both lines in one chunk that they do not fill. -/
def inOneOfFive : List Site.Move :=
  [.task, .task, .task, .task, .task, .task, .pool (.notify none), .pool (.look 0),
   .pool (.finish 0 (Model.Echo.model {} [["a", "b"], ["c"]] .default)), .task, .task]

theorem possible_inOneOfFive : Site.Possible (Model.Echo.model {})
    (Site.inChunksOf 5 oneByOne 1 twoLines) inOneOfFive := by
  iterate 8 refine ⟨trivial, _, rfl, ?_⟩
  refine ⟨by rintro job ⟨⟩; rfl, _, rfl, ?_⟩
  exact ⟨trivial, _, rfl, trivial, _, rfl, trivial⟩

/-- Both lines in one chunk that they fill. -/
def inOneOfTwo : List Site.Move :=
  [.task, .task, .task, .task, .task, .pool (.notify none), .pool (.look 0),
   .pool (.finish 0 (Model.Echo.model {} [["a", "b"], ["c"]] .default)), .task, .task, .task]

theorem possible_inOneOfTwo : Site.Possible (Model.Echo.model {})
    (Site.inChunksOf 2 oneByOne 1 twoLines) inOneOfTwo := by
  iterate 7 refine ⟨trivial, _, rfl, ?_⟩
  refine ⟨by rintro job ⟨⟩; rfl, _, rfl, ?_⟩
  exact ⟨trivial, _, rfl, trivial, _, rfl, trivial, _, rfl, trivial⟩

theorem usable_chunk_sizes_twoLines :
    ∃ s s', Site.Reachable (Model.Echo.model {}) (Site.inChunksOf 5 oneByOne 1 twoLines) s ∧
      Site.Reachable (Model.Echo.model {}) (Site.inChunksOf 2 oneByOne 1 twoLines) s' ∧
      s.task.result? = some (.ok 2) ∧ s'.task.result? = some (.ok 2) ∧
      s.files.received ["work", "out"] = s'.files.received ["work", "out"] := by
  have hfive := (Site.Run.ofMoves _ possible_inOneOfFive).reachable 11
  have htwo := (Site.Run.ofMoves _ possible_inOneOfTwo).reachable 11
  have hresult : ((Site.Run.ofMoves _ possible_inOneOfTwo).site 11).task.result? =
      some (.ok 2) := rfl
  obtain ⟨r, hr⟩ : ∃ r, ((Site.Run.ofMoves _ possible_inOneOfFive).site 11).task.result? =
      some r := ⟨_, rfl⟩
  have hlines : max 1 (Text.lines (Text.encode "a b\nc\n")).length = 2 := by decide +kernel
  obtain ⟨-, hsame, -⟩ := @Site.usable_chunk_sizes (Model.Echo.model {}) oneByOne 1 twoLines
    (twoLines.set ["work", "out"] (.file [])) ⟨["work", "out"], 0⟩ (Text.encode "a b\nc\n") 5
    Nat.one_pos rfl rfl (by decide)
  rw [hlines] at hsame
  obtain ⟨rfl, hreceived⟩ := hsame (by decide) (by decide) _ r _ _ hfive hr htwo hresult
  exact ⟨_, _, hfive, htwo, hr, hresult, hreceived⟩

/-- There are positive chunk sizes in 64 bits with which a document that can be read and
written ends in a fault. -/
theorem not_usable_of_pos : ¬ ∀ (model : Model) (size : Nat) (request : Request)
    (files opened : Files) (handle : Handle) (content : Bytes) (m : Nat) (s : Site)
    (r : Except Failure Nat), 0 < size → 0 < m → m < UInt64.size →
      files.read request.input = .ok content →
      files.create request.output = .ok (handle, opened) →
      Site.Reachable model (Site.inChunksOf m request size files) s →
      s.task.result? = some r → ∀ f, r ≠ .error (.fault f) := by
  intro h
  have hstart : Site.Reachable (Model.Echo.model {})
      (Site.inChunksOf (UInt64.size - 1) oneByOne 1 twoLines) _ := .start
  have hreach := ((hstart.step .task trivial rfl).step .task trivial rfl).step .task trivial rfl
  exact h _ 1 oneByOne twoLines _ _ _ _ _ _ Nat.one_pos (by decide) (by decide) rfl rfl hreach
    rfl _ rfl

end DecodingDesk.Document
