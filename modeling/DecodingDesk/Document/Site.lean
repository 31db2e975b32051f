import DecodingDesk.Document.Task
/-!
# A task among other callers

A task shares its pool.  Between two of its steps workers go on, and other callers
post jobs and give jobs up.  Nobody closes the pool meanwhile, because the task has
a part in it.
-/

namespace DecodingDesk.Document

structure Site where
  task : Task
  pool : Pool
  files : Files

namespace Site

inductive Move where
  | task
  /-- something else happens in the pool -/
  | pool (a : Pool.Action)

def step? (s : Site) : Move → Option Site
  | .task => (s.task.step? s.pool s.files).map fun (task, pool, files) => { task, pool, files }
  | .pool a => (s.pool.step? a).map fun pool => { s with pool }

/-- Whether a move can happen while the task has a part in a pool around a model. -/
def Allows (model : Model) (s : Site) : Move → Prop
  | .pool .close => False
  | .pool a => s.pool.Follows model a
  | .task => True

/-- The sites that can come about from one. -/
inductive Reachable (model : Model) (start : Site) : Site → Prop where
  | start : Reachable model start start
  | step {s s' : Site} (m : Move) : Reachable model start s → s.Allows model m →
      s.step? m = some s' → Reachable model start s'

end Site

end DecodingDesk.Document
