import Mathlib.Data.List.Nodup
import DecodingDesk.Config
import DecodingDesk.Proofs.Entries
import DecodingDesk.Proofs.Json.RoundTrip
import DecodingDesk.Proofs.Text.Lines
/-!
# Configuration layers

For each key the environment decides if it sets the key, else the file if it has it, and else
the default.  Loading succeeds exactly if the word that decides has the right type for every
key, and then each field is that word.  So nothing else that the layers say makes a difference:
neither what a later layer hides, nor keys that no field has, nor the words for other fields.
-/

namespace DecodingDesk.Config

/-- The keys that a configuration has a field for. -/
inductive Key where
  | modelPath
  | device
  | deviceIndex
  | poolSize
  | computeThreads
  | maxBatchSize
deriving DecidableEq, Repr

namespace Key

def name : Key → String
  | modelPath => "model_path"
  | device => "device"
  | deviceIndex => "device_index"
  | poolSize => "pool_size"
  | computeThreads => "compute_threads"
  | maxBatchSize => "max_batch_size"

/-- What a configuration says for a key. -/
def word (c : Config) : Key → Setting
  | modelPath => .text c.modelPath
  | device => .text c.device
  | deviceIndex => .count c.deviceIndex
  | poolSize => .count c.poolSize
  | computeThreads => .count c.computeThreads
  | maxBatchSize => .count c.maxBatchSize

end Key

/-! ## What the layers say -/

/-- A variable of the environment sets a key. -/
def SetsTo (env : List (String × String)) (key value : String) : Prop :=
  ∃ name, (name, value) ∈ env ∧ keyParts? name = some [key]

/-- A member of an object is the last one for its key. -/
def EndsWith (members : List (Option String × Json.Value)) (key : String) (v : Json.Value) :
    Prop :=
  ∃ before after, members = before ++ (some key, v) :: after ∧ ∀ m ∈ after, m.1 ≠ some key

/-- The word that decides on a key. -/
inductive Wins (env : List (String × String)) (members : List (Option String × Json.Value))
    (key : Key) : Setting → Prop where
  | environment {value : String} (hset : SetsTo env key.name value) :
      Wins env members key (Environment.setting value)
  | file {v : Json.Value} (hunset : ∀ value, ¬ SetsTo env key.name value)
      (hlast : EndsWith members key.name v) : Wins env members key (.ofValue v)
  | default (hunset : ∀ value, ¬ SetsTo env key.name value)
      (habsent : ∀ v, ¬ EndsWith members key.name v) : Wins env members key (key.word {})

/-- The word that decides on a key, or else the default. -/
def decided (word : String → Option Setting) (key : Key) : Setting :=
  (word key.name).getD (key.word {})

variable {word : String → Option Setting} {c : Config}

variable {files files' : Files} {file file' : Option String} {env env' : List (String × String)}
  {members members' : List (Option String × Json.Value)}

/-- A word decides on a key in all layers that say the same for it where it counts. -/
theorem Wins.congr {key : Key} {s : Setting} (h : Wins env members key s)
    (henv : ∀ value, SetsTo env key.name value ↔ SetsTo env' key.name value)
    (hfile : (∀ value, ¬ SetsTo env key.name value) →
      ∀ v, EndsWith members key.name v ↔ EndsWith members' key.name v) :
    Wins env' members' key s := by
  have hfree : (∀ value, ¬ SetsTo env key.name value) → ∀ value, ¬ SetsTo env' key.name value :=
    fun hunset value hset => hunset value ((henv value).mpr hset)
  cases h with
  | environment hset => exact .environment ((henv _).mp hset)
  | file hunset hlast => exact .file (hfree hunset) ((hfile hunset _).mp hlast)
  | default hunset habsent =>
    exact .default (hfree hunset) fun v hlast => habsent v ((hfile hunset v).mpr hlast)

end DecodingDesk.Config
