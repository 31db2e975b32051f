import DecodingDesk.CommandLine.Help
import DecodingDesk.CommandLine.Output
import DecodingDesk.Model.Echo
import DecodingDesk.Result.Json
import DecodingDesk.Service.Create
import DecodingDesk.Service.Schedule
/-!
# Running a command

A command loads a configuration, creates a service around the echo model, and then
does either a document or sentences.  Each sentence is a call of its own; all are
made together, and each answer is printed on a line of its own in the order of the
sentences, up to the first error.  On the way records are made of what goes on: when
the pool is started and stopped, when the service is ready, how a document gets on,
and which error ends the run.
-/

namespace DecodingDesk.CommandLine

open Model (Echo)

structure Ending where
  code : UInt32
  /-- what is printed, and the records up to the level `info`, in their order -/
  output : List Entry := []
  /-- what is reported on standard error -/
  complaint : Option String := none
  files : Files

namespace Ending

/-- What is printed, without any record. -/
def printed (e : Ending) : String :=
  textOf (e.output.filter Entry.isPrinted)

/-- What is on standard output when the run has ended.  The records of finer levels than `info`
are made by all threads of the run, so they may stand anywhere between what the run says in
its own order. -/
def Shows (e : Ending) (filter : Filter) (shown : List Entry) : Prop :=
  ∃ all : List Entry, all.filter (Entry.passes (.upTo .info)) = e.output ∧
    shown = all.filter (Entry.passes filter)

end Ending

def successCode : UInt32 := 0

def failureCode : UInt32 := 1

/-- The exit code of a run that never began because of its arguments. -/
def usageCode : UInt32 := 2

/-- The exit code of a run that a fault ended. -/
def faultCode : UInt32 := 101

/-! ## Records -/

namespace Record

def ofProgram (level : Level) (message : String) (fields : List (String × String)) : Record :=
  { level, target := "translate_file", message, fields }

def ofPool (message : String) (size : Nat) : Record where
  level := .info
  target := "tandem::pool::translator_pool"
  message := message
  fields := [("pool_size", toString size)]

def poolStarted (size : Nat) : Record := ofPool "translator pool started" size

def poolStopped (size : Nat) : Record := ofPool "translator pool stopped" size

def serviceReady (modelPath : String) (service : Service) : Record where
  level := .info
  target := "tandem::service"
  message := "translation service ready"
  fields := [("model", modelPath), ("device", service.device.name),
    ("device_index", toString service.deviceIndex), ("pool_size", toString service.pool.size)]

def documentStarted (input output : String) (batchSize : Nat) : Record where
  level := .info
  target := "tandem::dispatch::file"
  message := "file translation started"
  fields := [("input", input), ("output", output), ("max_batch_size", toString batchSize)]

def documentWritten (input output : String) (lines : Nat) : Record where
  level := .info
  target := "tandem::pool::consume"
  message := "file translated"
  fields := [("input", input), ("output", output), ("lines", toString lines)]

def documentDone (output : String) (lines : Nat) : Record :=
  ofProgram .info "file translated" [("lines", toString lines), ("output", output)]

def callFaulted (f : Fault) : Record :=
  ofProgram .error "translation task failed" [("error", f.message)]

def runFailed (e : Error) : Record :=
  ofProgram .error "translation failed" [("error", e.message)]

end Record

/-- The records of a call for a document: when it is let in, and when all lines are written. -/
def documentRecords (input output : String) (batchSize : Nat) (params : DecodingParams)
    (reply : Option Service.CallReply) : List Record :=
  if (Options.validate params).isOk ∧ batchSize ≠ 0 then
    .documentStarted input output batchSize ::
      match reply with
      | some (.ok (.lines n)) => [.documentWritten input output n, .documentDone output n]
      | _ => []
  else []

/-- What is said for a call and what it has returned. -/
def said (spec : Service.CallSpec) (reply : Option Service.CallReply) : List Entry :=
  match spec, reply with
  | .document input output batchSize params, reply =>
    (documentRecords input output batchSize params reply).map .record
  | _, some (.ok (.results r)) => [.line r.print]
  | _, some (.error (.fault f)) => [.record (.callFaulted f)]
  | _, _ => []

/-- What is said for calls in turn, and the error that ends this early. -/
def report : List (Service.CallSpec × Option Service.CallReply) → List Entry × Option Error
  | [] => ([], none)
  | (spec, reply) :: rest =>
    match reply with
    | some (.error (.error e)) => (said spec reply, some e)
    | _ => (said spec reply ++ (report rest).1, (report rest).2)

/-! ## Runs -/

def failed (output : List Entry) (files : Files) : Failure → Ending
  | .error e => { code := failureCode, output := output ++ [.record (.runFailed e)], files }
  | .fault f => { code := faultCode, output, complaint := some f.message, files }

namespace Command

def params (c : Command) : DecodingParams where
  numHypotheses := c.numHypotheses.getD 1
  returnAttention := c.attention
  withScores := c.withScores

/-- The configuration of a command; its model path counts more than the loaded one. -/
def configuration (c : Command) (files : Files) (env : List (String × String)) :
    Except ConfigError Config :=
  (Config.load files c.config env).map fun config =>
    { config with modelPath := c.model.getD config.modelPath }

/-- The paths at which a settings file is looked for. -/
def settingsPaths (c : Command) (files : Files) : List String :=
  c.config.toList.flatMap (Config.candidates files)

/-- The other paths that a command looks at, as far as the files tell. -/
def paths (c : Command) (files : Files) (env : List (String × String)) : List String :=
  [c.input, c.output].filterMap id ++
    ((c.configuration files env).toOption.map Config.modelPath).toList

def calls (c : Command) (config : Config) : List Service.CallSpec :=
  match c.input, c.output with
  | some input, some output => [.document input output config.maxBatchSize.toNat c.params]
  | _, _ => c.sentences.map fun s => .batch (some [Text.words s]) c.params

end Command

def finish (service : Service) : Service :=
  (service.act (.beginEnd .shutdown)).settle fun _ => false

/-- What is said when a service has been created. -/
def opening (config : Config) (service : Service) : List Entry :=
  [.record (.poolStarted service.pool.size), .record (.serviceReady config.modelPath service)]

/-- What is said when a service has ended. -/
def closing (service : Service) : List Entry :=
  [.record (.poolStopped service.pool.size)]

namespace Command

def run (c : Command) (files : Files) (env : List (String × String)) : Ending :=
  match c.configuration files env with
  | .error e => failed [] files (.error (.config e))
  | .ok config =>
    match (Service.create (({} : Echo).loader files 0) files (.ofConfig config)).result with
    | .error failure => failed [] files failure
    | .ok service =>
      let specs := c.calls config
      let (answered, replies) := service.answerAll specs
      let (entries, error?) := report (specs.zip replies)
      let output := opening config service ++ entries ++ closing service
      let files := (finish answered).files
      match error? with
      | none => { code := successCode, output, files }
      | some e => failed output files (.error e)

end Command

/-- Runs the program on arguments, with files and the variables of the environment. -/
def run (arguments : List String) (files : Files) (env : List (String × String)) : Ending :=
  match Command.ofArguments arguments with
  | .ok c => c.run files env
  | .error .help => { code := successCode, output := [.printed helpText], files }
  | .error .version => { code := successCode, output := [.printed versionText], files }
  | .error (.misuse e) => { code := usageCode, complaint := some e.message, files }

end DecodingDesk.CommandLine
