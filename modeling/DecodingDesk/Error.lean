import DecodingDesk.Device
/-!
# Errors

What can go wrong, as causes.  The wording of a cause stands in one function for
each kind of error.  A `Fault` is not an error of the caller's input: it ends the
activity in which it arises, and whoever runs that activity reports it.
-/

namespace DecodingDesk

inductive LoadError where
  | unknownDevice (selector : String)
  | missingPath (path : String)
  | indexOutOfRange (index : Nat) (device : Device) (available : Nat)
  /-- The loader's own words. -/
  | stated (reason : String)
deriving DecidableEq, Repr

inductive OptionsError where
  | zeroBeamSize
  | zeroHypotheses
  | lengthsCrossed (least most : Nat)
  | penaltyNotFinite
  | zeroBatchSize
  | zeroPoolSize
  | stated (reason : String)
deriving DecidableEq, Repr

/-- Why a batch fails once it has been submitted. -/
inductive EngineError where
  /-- The model's own words. -/
  | stated (reason : String)
  | outsideVocabulary (token : String)
  | panicked (message : String)
  | resultCount (results items : Nat)
  | hypothesisCount (hypotheses allowed : Nat)
  | scoreCount (scores hypotheses : Nat)
  | attentionCount (matrices hypotheses : Nat)
  /-- The worker that ran the job died. -/
  | droppedByWorker
  | emptyPool
  /-- The system gave a worker no thread. -/
  | threadRefused (worker : Nat) (reason : String)
  | taskPanicked
  | taskRefused
deriving DecidableEq, Repr

inductive ConfigError where
  | malformedFile (path : String)
  | wrongType (key : String)
  | stated (reason : String)
deriving DecidableEq, Repr

inductive IoFault where
  | notFound
  | notDirectory
  | isDirectory
  | noSpace
  | nameTooLong
  | nulInName
  | invalidUtf8
  | stated (reason : String)
deriving DecidableEq, Repr

inductive Error where
  | load (e : LoadError)
  | options (e : OptionsError)
  | engine (e : EngineError)
  | config (e : ConfigError)
  | io (path : String) (fault : IoFault)
deriving DecidableEq, Repr

/-- What ends an activity without an error for its caller. -/
inductive Fault where
  /-- A list of this length cannot be allocated. -/
  | capacityOverflow
  | scoresMissing (scores hypotheses : Nat)
  | attentionMissing (matrices hypotheses : Nat)
  | indexOutOfBounds (length index : Nat)
deriving DecidableEq, Repr

inductive Failure where
  | error (e : Error)
  | fault (f : Fault)
deriving DecidableEq, Repr

def LoadError.reason : LoadError → String
  | unknownDevice selector => s!"unknown device '{selector}'"
  | missingPath path => s!"model path {path} does not exist"
  | indexOutOfRange index device available =>
    s!"device index {index} is out of range for {device.name} ({available} available)"
  | stated reason => reason

def OptionsError.reason : OptionsError → String
  | zeroBeamSize => "beam_size must be positive"
  | zeroHypotheses => "num_hypotheses must be positive"
  | lengthsCrossed least most =>
    s!"min_decoding_length ({least}) exceeds max_decoding_length ({most})"
  | penaltyNotFinite => "length_penalty must be finite"
  | zeroBatchSize => "max_batch_size must be positive"
  | zeroPoolSize => "pool_size must be positive"
  | stated reason => reason

def EngineError.reason : EngineError → String
  | stated reason => reason
  | outsideVocabulary token => s!"token '{token}' is outside the vocabulary"
  | panicked message => s!"model panicked: {message}"
  | resultCount results items => s!"engine returned {results} results for a batch of {items}"
  | hypothesisCount hypotheses allowed =>
    s!"engine returned {hypotheses} hypotheses, at most {allowed} requested"
  | scoreCount scores hypotheses =>
    s!"engine returned {scores} scores for {hypotheses} hypotheses"
  | attentionCount matrices hypotheses =>
    s!"engine returned {matrices} attention matrices for {hypotheses} hypotheses"
  | droppedByWorker => "worker dropped the request without a result"
  | emptyPool => "pool_size must be positive"
  | threadRefused worker reason => s!"failed to spawn worker {worker}: {reason}"
  | taskPanicked => "blocking translation task panicked"
  | taskRefused => "blocking translation task failed:"

def ConfigError.reason : ConfigError → String
  | malformedFile path => s!"the file {path} does not hold an object"
  | wrongType key => s!"the value of {key} has the wrong type"
  | stated reason => reason

def IoFault.reason : IoFault → String
  | notFound => "No such file or directory (os error 2)"
  | notDirectory => "Not a directory (os error 20)"
  | isDirectory => "Is a directory (os error 21)"
  | noSpace => "No space left on device (os error 28)"
  | nameTooLong => "File name too long (os error 36)"
  | nulInName => "file name contained an unexpected NUL byte"
  | invalidUtf8 => "stream did not contain valid UTF-8"
  | stated reason => reason

namespace Error

def message : Error → String
  | load e => s!"failed to load model: {e.reason}"
  | options e => s!"invalid options: {e.reason}"
  | engine e => s!"engine failure: {e.reason}"
  | config e => s!"invalid configuration: {e.reason}"
  | io path fault => s!"io error on {path}: {fault.reason}"

/-- The words of the loader or the engine alone. -/
def reason? : Error → Option String
  | load e => some e.reason
  | engine e => some e.reason
  | _ => none

/-- The words of the file system alone. -/
def source? : Error → Option String
  | io _ fault => some fault.reason
  | _ => none

end Error

def Fault.message : Fault → String
  | capacityOverflow => "capacity overflow"
  | scoresMissing scores hypotheses =>
    s!"engine returned {scores} scores for {hypotheses} hypotheses"
  | attentionMissing matrices hypotheses =>
    s!"engine returned {matrices} attention matrices for {hypotheses} hypotheses"
  | indexOutOfBounds length index =>
    s!"index out of bounds: the len is {length} but the index is {index}"

/-- Whether a list of this length can be allocated: its elements take 24 bytes each, and no
list takes more bytes than a signed word counts. -/
def fitsMemory (length : Nat) : Bool :=
  length * 24 < UInt64.size / 2

/-- Two steps succeed exactly if the first does and the second goes on from its result. -/
theorem bind_eq_ok {ε α β : Type} {x : Except ε α} {f : α → Except ε β} {b : β} :
    x >>= f = .ok b ↔ ∃ a, x = .ok a ∧ f a = .ok b := by
  cases x <;> simp [bind, Except.bind]

end DecodingDesk
