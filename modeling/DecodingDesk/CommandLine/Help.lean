import DecodingDesk.CommandLine.Arguments
/-!
# What the program says about itself

Its version, the explanation of its options, and the wording of usage errors.  An
option is explained on two lines: how it is written, and what it is for.
-/

namespace DecodingDesk.CommandLine

def versionText : String := "translate-file 0.1.0\n"

def UsageError.message : UsageError → String
  | unknown argument => s!"unexpected argument '{argument}' found"
  | missingValue o => s!"a value is required for '--{o.name}' but none was supplied"
  | badValue o value => s!"invalid value '{value}' for '--{o.name}'"
  | unwantedValue f => s!"unexpected value for '--{f.name}' found; no more were expected"
  | repeatedOption o => s!"the argument '--{o.name}' cannot be used multiple times"
  | repeatedFlag f => s!"the argument '--{f.name}' cannot be used multiple times"
  | outputRequired => "'--input' needs '--output'"
  | sentenceConflict => "the argument '--sentence' cannot be used with '--input'"

/-- The value that an option takes and what the option is for. -/
def CommandOption.help : CommandOption → Option String × String
  | valued .config =>
    (some "CONFIG", "JSON settings file; TANDEM_* environment variables override it")
  | valued .model => (some "MODEL", "Model directory, overrides the configured one")
  | valued .input => (some "INPUT", "Source file, one whitespace-tokenized sentence per line")
  | valued .output => (some "OUTPUT", "")
  | valued .sentence =>
    (some "SENTENCES", "Inline sentence; may be repeated. Each one is sent as its own request")
  | valued .numHypotheses => (some "NUM_HYPOTHESES", "[default: 1]")
  | flag .withScores => (none, "")
  | flag .attention => (none, "")
  | flag .help => (none, "Print help")
  | flag .version => (none, "Print version")

def CommandOption.helpLines (o : CommandOption) : List String :=
  let letter := match o with
    | valued _ => none
    | flag f => f.letter?
  let start := match letter with
    | some c => "  -" ++ String.singleton c ++ ", --"
    | none => "      --"
  let value := match o.help.1 with
    | some v => " <" ++ v ++ ">"
    | none => ""
  [start ++ o.name ++ value, "          " ++ o.help.2]

def helpText : String :=
  "\n".intercalate
    (["Translate a text file, or a few inline sentences, with the echo model", "",
      "Usage: translate-file [OPTIONS]", "", "Options:"] ++
      CommandOption.all.flatMap CommandOption.helpLines) ++ "\n"

end DecodingDesk.CommandLine
