import DecodingDesk.Decimal.Digits
/-!
# Command line arguments

Arguments are read from left to right, and the first that ends the reading decides.
Options are written out in full; the value of an option stands behind an equals sign
or is the next argument.  What options demand of each other is looked at last.
-/

namespace DecodingDesk.CommandLine

inductive ValueOption where
  | config
  | model
  | input
  | output
  | sentence
  | numHypotheses
deriving DecidableEq, Repr

inductive Flag where
  | withScores
  | attention
  | help
  | version
deriving DecidableEq, Repr

inductive CommandOption where
  | valued (o : ValueOption)
  | flag (f : Flag)
deriving DecidableEq, Repr

inductive UsageError where
  | unknown (argument : String)
  | missingValue (o : ValueOption)
  | badValue (o : ValueOption) (value : String)
  | unwantedValue (f : Flag)
  | repeatedOption (o : ValueOption)
  | repeatedFlag (f : Flag)
  /-- an input without an output -/
  | outputRequired
  /-- sentences together with an input -/
  | sentenceConflict
deriving DecidableEq, Repr

/-- What ends the reading of arguments early. -/
inductive Stop where
  | help
  | version
  | misuse (e : UsageError)
deriving DecidableEq, Repr

structure Command where
  config : Option String := none
  model : Option String := none
  input : Option String := none
  output : Option String := none
  sentences : List String := []
  numHypotheses : Option UInt64 := none
  withScores : Bool := false
  attention : Bool := false
deriving DecidableEq, Repr

def ValueOption.name : ValueOption → String
  | config => "config"
  | model => "model"
  | input => "input"
  | output => "output"
  | sentence => "sentence"
  | numHypotheses => "num-hypotheses"

def Flag.name : Flag → String
  | withScores => "with-scores"
  | attention => "attention"
  | help => "help"
  | version => "version"

def Flag.letter? : Flag → Option Char
  | help => some 'h'
  | version => some 'V'
  | _ => none

namespace CommandOption

/-- The options, in the order in which they are explained. -/
def all : List CommandOption :=
  [.valued .config, .valued .model, .valued .input, .valued .output, .valued .sentence,
   .valued .numHypotheses, .flag .withScores, .flag .attention, .flag .help, .flag .version]

def name : CommandOption → String
  | valued o => o.name
  | flag f => f.name

def ofName? (name : String) : Option CommandOption :=
  all.find? fun o => o.name = name

end CommandOption

def Flag.ofLetter? (c : Char) : Option Flag :=
  [Flag.withScores, .attention, .help, .version].find? fun f => f.letter? = some c

inductive Argument where
  /-- two hyphens alone, behind which no options are read -/
  | separator
  | long (name : String) (value : Option String)
  /-- a hyphen and letters, of which the first counts -/
  | short (letter : Char)
  /-- everything else; a lone hyphen is here too -/
  | plain (text : String)
deriving DecidableEq, Repr

namespace Argument

/-- A name and the value behind the first equals sign. -/
def ofName (cs : List Char) : Argument :=
  let name := String.ofList (cs.takeWhile (· ≠ '='))
  match cs.dropWhile (· ≠ '=') with
  | [] => .long name none
  | _ :: value => .long name (some (String.ofList value))

def ofText (text : String) : Argument :=
  match text.toList with
  | ['-', '-'] => .separator
  | '-' :: '-' :: cs => ofName cs
  | '-' :: c :: _ => .short c
  | _ => .plain text

end Argument

/-- The count that a value writes: digits, perhaps behind a plus sign, for a 64-bit word. -/
def count? (value : String) : Option UInt64 :=
  let cs := match value.toList with
    | '+' :: rest => rest
    | cs => cs
  match Decimal.spanDigits cs with
  | ([], _) => none
  | (ds, []) =>
    if Decimal.ofDigits ds < UInt64.size then some (UInt64.ofNat (Decimal.ofDigits ds)) else none
  | _ => none

namespace Command

/-- Takes a path, which may be given once and must not be empty. -/
def takePath (o : ValueOption) (old : Option String) (value : String)
    (command : Option String → Command) : Except Stop Command :=
  if old.isSome then .error (.misuse (.repeatedOption o))
  else if value = "" then .error (.misuse (.badValue o value))
  else .ok (command (some value))

def setValue (c : Command) (o : ValueOption) (value : String) : Except Stop Command :=
  match o with
  | .config => takePath o c.config value fun config => { c with config }
  | .model => takePath o c.model value fun model => { c with model }
  | .input => takePath o c.input value fun input => { c with input }
  | .output => takePath o c.output value fun output => { c with output }
  | .sentence => .ok { c with sentences := c.sentences ++ [value] }
  | .numHypotheses =>
    if c.numHypotheses.isSome then .error (.misuse (.repeatedOption o))
    else
      match count? value with
      | some n => .ok { c with numHypotheses := some n }
      | none => .error (.misuse (.badValue o value))

def setFlag (c : Command) : Flag → Except Stop Command
  | .withScores =>
    if c.withScores then .error (.misuse (.repeatedFlag .withScores))
    else .ok { c with withScores := true }
  | .attention =>
    if c.attention then .error (.misuse (.repeatedFlag .attention))
    else .ok { c with attention := true }
  | .help => .error .help
  | .version => .error .version

def takeAll (c : Command) : List String → Except Stop Command
  | [] => .ok c
  | argument :: rest =>
    match Argument.ofText argument with
    | .plain text => .error (.misuse (.unknown text))
    | .separator =>
      match rest.head? with
      | some text => .error (.misuse (.unknown text))
      | none => .ok c
    | .short letter =>
      match Flag.ofLetter? letter with
      | some f => (c.setFlag f).bind fun c => c.takeAll rest
      | none => .error (.misuse (.unknown argument))
    | .long name value =>
      match CommandOption.ofName? name, value with
      | none, _ => .error (.misuse (.unknown argument))
      | some (.flag f), some _ => .error (.misuse (.unwantedValue f))
      | some (.flag f), none => (c.setFlag f).bind fun c => c.takeAll rest
      | some (.valued o), some value => (c.setValue o value).bind fun c => c.takeAll rest
      | some (.valued o), none =>
        match rest with
        | [] => .error (.misuse (.missingValue o))
        | next :: rest =>
          match Argument.ofText next with
          | .plain value => (c.setValue o value).bind fun c => c.takeAll rest
          | _ => .error (.misuse (.missingValue o))

/-- What options demand of each other: an input needs an output and excludes sentences. -/
def check (c : Command) : Except Stop Command :=
  if c.input.isSome ∧ c.output = none then .error (.misuse .outputRequired)
  else if c.input.isSome ∧ c.sentences ≠ [] then .error (.misuse .sentenceConflict)
  else .ok c

def ofArguments (arguments : List String) : Except Stop Command :=
  (({} : Command).takeAll arguments).bind check

end Command

end DecodingDesk.CommandLine
