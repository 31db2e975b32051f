import DecodingDesk.Document.Task
/-!
# A document in one go

What a document task comes to when its chunks go to the model one after another,
each by itself: the renderings of the answers up to the first chunk that fails.  A
line that is no text ends the document too, but not before the chunks that a pool of
some size must have answered by then.  A task with many chunks under way is measured
by this.
-/

namespace DecodingDesk.Document

open Text (Bytes)

/-- Cuts a list into pieces of one length, of which the last may be shorter. -/
def chunks {α : Type} (size : Nat) (xs : List α) : List (List α) :=
  if size = 0 ∨ xs = [] then []
  else xs.take size :: chunks size (xs.drop size)
termination_by xs.length
decreasing_by
  rename_i h
  have hlen : xs.length ≠ 0 := fun e => h (.inr (List.length_eq_zero_iff.mp e))
  simp only [List.length_drop]
  omega

theorem flatten_chunks {α : Type} {size : Nat} (h : size ≠ 0) (xs : List α) :
    (chunks size xs).flatten = xs := by
  induction xs using chunks.induct size with
  | case1 xs hx =>
    rw [chunks, if_pos hx]
    rcases hx with hs | rfl
    · exact absurd hs h
    · rfl
  | case2 xs hx ih =>
    rw [chunks, if_neg hx, List.flatten_cons, ih, List.take_append_drop]

/-- The items that the lines of a content stand for, if all of them are texts. -/
def items? (content : Bytes) : Option Batch :=
  (Text.lines content).mapM fun line => (Text.decode line).map Text.words

/-- The result for chunks that are taken in turn, and what is written for them. -/
def inTurn (model : Model) (options : Options) (withScores : Bool) :
    List Batch → Except EngineError Nat × Bytes
  | [] => (.ok 0, [])
  | chunk :: rest =>
    match Pool.answerAlone model options chunk with
    | .error e => (.error e, [])
    | .ok os =>
      let (result, written) := inTurn model options withScores rest
      (result.map (os.length + ·), rendering withScores os ++ written)

/-- The items of the lines before the first that is no text. -/
def leading : List Bytes → Batch
  | [] => []
  | line :: rest =>
    match Text.decode line with
    | none => []
    | some text => Text.words text :: leading rest

/-- The chunks that are waited for.  If some line is no text, only full chunks are posted
before it is found, and all but the last `2 * size - 1` of them have been waited for. -/
def awaited (request : Request) (size : Nat) (content : Bytes) : List Batch :=
  match items? content with
  | some items => chunks request.batchSize items
  | none =>
    let items := leading (Text.lines content)
    (chunks request.batchSize items).take (items.length / request.batchSize + 1 - 2 * size)

/-- The result for a document in a pool of some size, and what is written for it. -/
def sequential (model : Model) (request : Request) (size : Nat) (content : Bytes) :
    Except Error Nat × Bytes :=
  match inTurn model request.options request.withScores (awaited request size content) with
  | (.error e, written) => (.error (.engine e), written)
  | (.ok n, written) =>
    (if (items? content).isSome then .ok n else .error (.io request.input .invalidUtf8), written)

end DecodingDesk.Document
