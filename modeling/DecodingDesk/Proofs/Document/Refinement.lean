import DecodingDesk.Model.Echo
import DecodingDesk.Proofs.Document.Progress
/-!
# A document task does what one go does

However workers and other callers come between its steps, a task ends, and its result
and its output are those of the chunks taken one after another.
-/

namespace DecodingDesk.Document

open Model (Output)
open Text (Bytes)

/-- For an input that is a file, a different output that takes everything and a model that
kills no worker: whatever happens in the pool, a task that is over has the result of the
document in one go, and what that writes is all that the output has received; and every fair
run ends the task. -/
theorem Site.refines_sequential {model : Model} {size : Nat} {request : Request}
    {files opened : Files} {source : Place} {content : Bytes} {handle : Handle}
    (hsize : 0 < size) (hbatch : request.batchSize ≠ 0)
    (hfits : fitsMemory request.batchSize = true)
    (hfind : files.find request.input = .ok (source, .file content))
    (hcreate : files.create request.output = .ok (handle, opened))
    (hdistinct : source ≠ handle.place)
    (hroom : ∀ taken room, files.node? handle.place = some (.device taken room) → room = none)
    (hmodel : ∀ batch options, model batch options ≠ .panicked .lethal) :
    InOneGo model request size content (sequential model request size content).1
      (sequential model request size content).2 ∧
    (∀ s r, Site.Reachable model { task := { request }, pool := Pool.start size, files } s →
      s.task.result? = some r →
        r = (sequential model request size content).1.mapError .error ∧
        s.files.received handle.place =
          files.kept handle.place ++ (sequential model request size content).2) ∧
    ∀ run : Site.Run model { task := { request }, pool := Pool.start size, files }, run.Fair →
      ∃ n r, (run.site n).task.result? = some r := by
  let c : Scene := {
    model, size, request, files, source, content, handle, opened
    size_pos := hsize
    batchSize_ne_zero := hbatch
    fits := hfits
    find := hfind
    create := hcreate
    distinct := hdistinct
    room := hroom }
  refine ⟨inOneGo_sequential hbatch model size content, ?_, ?_⟩
  · intro s r hreach hresult
    have hcourse : Course c s.task s.pool s.files := (Site.Reachable.course hreach).2
    obtain ⟨hr, hreceived⟩ := hcourse.of_result hresult
    refine ⟨hr, ?_⟩
    rw [hreceived, ← Files.received_of_create hcreate]
  · intro run hfair
    exact Site.Run.exists_result (c := c) run hfair hmodel

def twoLines : Files :=
  Files.empty.set ["work", "in"] (.file (Text.encode "a b\nc\n"))

def oneByOne : Request where
  input := "in"
  output := "out"
  batchSize := 1
  options := .default
  withScores := false

/-- The second chunk is posted while the first is with the worker. -/
def overlapping : List Site.Move :=
  [.task, .task, .task, .task, .pool (.notify none), .pool (.look 0), .task,
   .pool (.finish 0 (Model.Echo.model {} [["a", "b"]] .default)), .pool (.notify none),
   .pool (.look 0), .task, .task, .pool (.finish 0 (Model.Echo.model {} [["c"]] .default)),
   .task, .task, .pool (.look 0)]

theorem possible_overlapping : Site.Possible (Model.Echo.model {})
    { task := { request := oneByOne }, pool := Pool.start 1, files := twoLines } overlapping := by
  iterate 7 refine ⟨trivial, _, rfl, ?_⟩
  refine ⟨by rintro job ⟨⟩; rfl, _, rfl, ?_⟩
  iterate 4 refine ⟨trivial, _, rfl, ?_⟩
  refine ⟨by rintro job ⟨⟩; rfl, _, rfl, ?_⟩
  iterate 3 refine ⟨trivial, _, rfl, ?_⟩
  trivial

theorem refines_sequential_overlapping :
    ∃ run : Site.Run (Model.Echo.model {})
        { task := { request := oneByOne }, pool := Pool.start 1, files := twoLines },
      run.Fair ∧ ∃ n, (run.site n).task.result? = some (.ok 2) ∧
        (run.site n).files.received ["work", "out"] = Text.encode "a b\nc\n" := by
  have hroom : ∀ taken room,
      twoLines.node? ["work", "out"] = some (.device taken room) → room = none := by
    intro taken room h
    cases h
  obtain ⟨-, hresults, hends⟩ :=
    @Site.refines_sequential (Model.Echo.model {}) 1 oneByOne twoLines
      (twoLines.set ["work", "out"] (.file [])) ["work", "in"] (Text.encode "a b\nc\n")
      ⟨["work", "out"], 0⟩ Nat.one_pos Nat.one_ne_zero (by decide) rfl rfl (by decide) hroom
      (Model.Echo.model_ne_lethal {})
  have hfair : (Site.Run.ofMoves _ possible_overlapping).Fair := by
    refine Site.Run.fair_ofMoves possible_overlapping (Site.not_canAct ?_ rfl ?_)
    · intro h
      cases h
    · intro w hw
      obtain rfl := List.mem_singleton.mp hw
      rfl
  obtain ⟨n, r, hr⟩ := hends _ hfair
  obtain ⟨hresult, hreceived⟩ :=
    hresults _ r ((Site.Run.ofMoves _ possible_overlapping).reachable n) hr
  have hawaited : awaited oneByOne 1 (Text.encode "a b\nc\n") = [[["a", "b"]], [["c"]]] := by
    decide +kernel
  have hsequential : sequential (Model.Echo.model {}) oneByOne 1 (Text.encode "a b\nc\n") =
      (.ok 2, Text.encode "a b\nc\n") := by
    rw [sequential, hawaited]
    rfl
  refine ⟨_, hfair, n, ?_, ?_⟩
  · rw [hr, hresult, hsequential]
    rfl
  · rw [hreceived, hsequential]
    rfl

end DecodingDesk.Document
