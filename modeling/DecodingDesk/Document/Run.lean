import DecodingDesk.Document.Task
import DecodingDesk.Pool.Schedule
/-!
# Running a document task

A task and a pool that runs by itself take turns: the task goes on as far as it can,
and then the pool settles.
-/

namespace DecodingDesk.Document.Task

/-- Takes turns until the task is over or waits for a job that is held up. -/
def advance (model : Model) (held : Job → Bool) : Nat → Task → Pool → Files →
    Task × Pool × Files
  | 0, t, p, fs => (t, p, fs)
  | n + 1, t, p, fs =>
    match t.step? p fs with
    | some (t, p, fs) => advance model held n t p fs
    | none =>
      match t.stage with
      | .ended _ => (t, p, fs)
      | _ =>
        match t.step? (p.settle model held) fs with
        | some (t, p, fs) => advance model held n t p fs
        | none => (t, p.settle model held, fs)

def run (model : Model) (held : Job → Bool) (request : Request) (p : Pool) (fs : Files) :
    Task × Pool × Files :=
  let t : Task := { request }
  t.advance model held (t.work fs) p fs

end DecodingDesk.Document.Task
