import DecodingDesk.Config.Environment
import DecodingDesk.Files
import DecodingDesk.Json.Reader
/-!
# Configuration

Everything that is needed to start a service.  Three sources are asked for each
key: the environment, then a file, then the defaults; the first that says something
decides, and only its word must have the right type.
-/

namespace DecodingDesk

/-- Settings of the numeric backend, which are handed to the loader. -/
structure BackendSettings where
  /-- threads that the backend may use inside one call of the model -/
  computeThreads : UInt64 := 4
deriving DecidableEq, Repr, Inhabited

structure Config where
  modelPath : String := ""
  /-- a device selector, which is looked at when the service is created -/
  device : String := "cpu"
  deviceIndex : UInt64 := 0
  poolSize : UInt64 := 1
  computeThreads : UInt64 := 4
  /-- how many lines of a document go to the model together -/
  maxBatchSize : UInt64 := 32
deriving DecidableEq, Repr, Inhabited

namespace Config

def backend (c : Config) : BackendSettings :=
  { computeThreads := c.computeThreads }

/-- Containers in a settings file may be nested this deep. -/
def maxDepth : Nat := 127

/-- Where a settings file is looked for.  A path that does not start at the root is taken in
the current directory first, and then in each directory above it. -/
def candidates (files : Files) (path : String) : List String :=
  if Files.isAbsolute path then [path]
  else (List.range (files.current.length + 1)).map fun up => Files.join (files.above up) path

/-- The content of a settings file, which is the first regular file where it is looked for. -/
def settings? (files : Files) (path : String) : Option Text.Bytes :=
  (candidates files path).findSome? files.regular?

/-- What a settings file says.  Where there is none, nothing is said; one that is found must
hold a JSON object in which everything can be used. -/
def fileLayer (files : Files) (path : String) : Except ConfigError Layer :=
  match settings? files path with
  | none => .ok []
  | some content =>
    match (Text.decode content).bind Json.parse? with
    | some (.obj members) =>
      let v := Json.Value.obj members
      if v.isUsable ∧ v.depth ≤ maxDepth then
        .ok (members.filterMap fun m => m.1.map fun key => (key, Setting.ofValue m.2))
      else .error (.malformedFile path)
    | _ => .error (.malformedFile path)

/-- The word that decides on a key: that of the environment, else that of the file. -/
def winning? (environment file : Layer) (key : String) : Option Setting :=
  environment.get? key <|> file.get? key

/-- A text, which must be one if it is set. -/
def textField (word : String → Option Setting) (key default : String) :
    Except ConfigError String :=
  match word key with
  | none => .ok default
  | some (.text s) => .ok s
  | some _ => .error (.wrongType key)

/-- A count, which must be one if it is set. -/
def countField (word : String → Option Setting) (key : String) (default : UInt64) :
    Except ConfigError UInt64 :=
  match word key with
  | none => .ok default
  | some (.count n) => .ok n
  | some _ => .error (.wrongType key)

def ofWords (word : String → Option Setting) : Except ConfigError Config := do
  let d : Config := {}
  return {
    modelPath := ← textField word "model_path" d.modelPath
    device := ← textField word "device" d.device
    deviceIndex := ← countField word "device_index" d.deviceIndex
    poolSize := ← countField word "pool_size" d.poolSize
    computeThreads := ← countField word "compute_threads" d.computeThreads
    maxBatchSize := ← countField word "max_batch_size" d.maxBatchSize }

/-- Loads a configuration from the defaults, a file if one is named, and the environment. -/
def load (files : Files) (file : Option String) (env : List (String × String)) :
    Except ConfigError Config := do
  let fileWords ← match file with
    | none => .ok []
    | some path => fileLayer files path
  ofWords (winning? (Environment.layer env) fileWords)

end Config

end DecodingDesk
