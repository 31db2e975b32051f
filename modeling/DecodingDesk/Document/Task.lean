import DecodingDesk.Document.Line
import DecodingDesk.Document.Writer
import DecodingDesk.Pool
import DecodingDesk.Text.Blank
/-!
# Document tasks

A document is a text file with one item on each line.  A task reads it line by line,
posts the lines in chunks and writes the answers in the order of the lines.  It has
at most twice as many chunks under way as the pool has workers; before it posts
more, it waits for the oldest.  A failure ends it at once; what was written before
is kept, and the chunks under way stay jobs of the pool.
-/

namespace DecodingDesk.Document

open Model (Output)
open Text (Bytes)

structure Request where
  input : String
  output : String
  /-- how many lines make a chunk -/
  batchSize : Nat
  options : Options
  withScores : Bool
deriving DecidableEq

inductive Stage where
  | opening
  | creating (source : Place)
  | loading (source : Place) (writer : Writer)
  /-- lines that have still to be read -/
  | reading (lines : List Bytes) (writer : Writer)
  | draining (writer : Writer)
  | ended (result : Except Failure Nat)

structure Task where
  request : Request
  stage : Stage := .opening
  /-- lines that have been read and not posted -/
  chunk : Batch := []
  /-- the chunks posted so far, in order -/
  sent : List Job := []
  /-- the chunks that have not been waited for, oldest first -/
  pending : List Job := []
  /-- lines whose answers have been written -/
  written : Nat := 0

namespace Task

def result? (t : Task) : Option (Except Failure Nat) :=
  match t.stage with
  | .ended r => some r
  | _ => none

def finish (t : Task) (r : Except Failure Nat) : Task :=
  { t with stage := .ended r }

def fail (t : Task) (e : Error) : Task :=
  t.finish (.error (.error e))

/-- Ends the task with an error.  What is in the buffer is passed on as far as possible. -/
def abort (t : Task) (writer : Writer) (fs : Files) (e : Error) : Task × Files :=
  (t.fail e, (writer.flush fs).2.2)

def outputError (t : Task) : Error :=
  .io t.request.output .noSpace

def post (t : Task) (p : Pool) : Task × Pool :=
  let p := p.post t.chunk t.request.options
  let jobs := p.posted.getLast?.toList
  ({ t with chunk := [], sent := t.sent ++ jobs, pending := t.pending ++ jobs }, p)

/-- Reads a line: its words join the chunk, which is posted when it is full. -/
def readLine (t : Task) (p : Pool) (fs : Files) (writer : Writer) (line : Bytes)
    (rest : List Bytes) : Task × Pool × Files :=
  match Text.decode line with
  | none =>
    let (t, fs) := t.abort writer fs (.io t.request.input .invalidUtf8)
    (t, p, fs)
  | some text =>
    let t := { t with stage := .reading rest writer, chunk := t.chunk ++ [Text.words text] }
    if t.chunk.length < t.request.batchSize then (t, p, fs)
    else
      let (t, p) := t.post p
      (t, p, fs)

/-- Writes the answers to the oldest chunk, which must be settled; `next` is the stage to go
on with. -/
def writeOldest? (t : Task) (p : Pool) (fs : Files) (writer : Writer) (next : Writer → Stage) :
    Option (Task × Pool × Files) :=
  match t.pending with
  | [] => none
  | job :: rest =>
    match p.future? job.id with
    | none => none
    | some (.error e) =>
      let (t, fs) := { t with pending := rest }.abort writer fs (.engine e)
      some (t, p, fs)
    | some (.ok os) =>
      match writer.writeAll fs (chunkPieces t.request.withScores os) with
      | (true, writer, fs) =>
        some ({ t with
          stage := next writer
          pending := rest
          written := t.written + os.length }, p, fs)
      | (false, writer, fs) =>
        let (t, fs) := { t with pending := rest }.abort writer fs t.outputError
        some (t, p, fs)

def window (p : Pool) : Nat :=
  2 * p.size

/-- The next step of a task, if it is not over and need not wait. -/
def step? (t : Task) (p : Pool) (fs : Files) : Option (Task × Pool × Files) :=
  match t.stage with
  | .opening =>
    if t.request.batchSize = 0 then some (t.fail (.options .zeroBatchSize), p, fs)
    else
      match fs.openSource t.request.input with
      | .error fault => some (t.fail (.io t.request.input fault), p, fs)
      | .ok source => some ({ t with stage := .creating source }, p, fs)
  | .creating source =>
    match fs.create t.request.output with
    | .error fault => some (t.fail (.io t.request.output fault), p, fs)
    | .ok (handle, fs) => some ({ t with stage := .loading source { handle } }, p, fs)
  | .loading source writer =>
    if fitsMemory t.request.batchSize then
      match fs.contentAt source with
      | .error fault =>
        let (t, fs) := t.abort writer fs (.io t.request.input fault)
        some (t, p, fs)
      | .ok content => some ({ t with stage := .reading (Text.lines content) writer }, p, fs)
    else some (t.finish (.error (.fault .capacityOverflow)), p, fs)
  | .reading lines writer =>
    if window p ≤ t.pending.length then t.writeOldest? p fs writer (.reading lines)
    else
      match lines with
      | line :: rest => some (t.readLine p fs writer line rest)
      | [] =>
        let t := { t with stage := .draining writer }
        if t.chunk.isEmpty then some (t, p, fs)
        else
          let (t, p) := t.post p
          some (t, p, fs)
  | .draining writer =>
    if t.pending.isEmpty then
      match writer.flush fs with
      | (true, _, fs) => some (t.finish (.ok t.written), p, fs)
      | (false, writer, fs) =>
        let (t, fs) := t.abort writer fs t.outputError
        some (t, p, fs)
    else t.writeOldest? p fs writer .draining
  | .ended _ => none

/-- A number of steps that the task cannot exceed.  Before the lines are known it is taken
from the length of the content that is read. -/
def work (t : Task) (fs : Files) : Nat :=
  match t.stage with
  | .reading lines _ => 2 * lines.length + t.pending.length + 4
  | .draining _ => t.pending.length + 2
  | .ended _ => 0
  | _ => 2 * ((fs.read t.request.input).toOption.getD []).length + 8

end Task

end DecodingDesk.Document
