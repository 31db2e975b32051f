import DecodingDesk.Text.Blank
/-!
# Standard output

What a run prints and the records of its log go to the same place.  A filter decides which
records are let through.  The environment may describe a filter by directives, of which the
one for the most special target counts; by default the records up to the level `info` are
let through.
-/

namespace DecodingDesk.CommandLine

inductive Level where
  | error
  | warn
  | info
  | debug
  | trace
deriving DecidableEq, Repr

namespace Level

/-- The place among the levels, from the gravest on. -/
def rank : Level → Nat
  | error => 1
  | warn => 2
  | info => 3
  | debug => 4
  | trace => 5

/-- The name of a level, as wide as the longest. -/
def name : Level → String
  | error => "ERROR"
  | warn => " WARN"
  | info => " INFO"
  | debug => "DEBUG"
  | trace => "TRACE"

end Level

/-- A record of the log. -/
structure Record where
  level : Level
  /-- the part of the program that makes the record -/
  target : String
  message : String
  fields : List (String × String)
deriving DecidableEq, Repr

/-- The line for a record, without the time at which it is made. -/
def Record.text (r : Record) : String :=
  r.level.name ++ " " ++ r.target ++ ": " ++ r.message ++
    r.fields.foldr (fun f rest => " " ++ f.1 ++ "=" ++ f.2 ++ rest) "\n"

/-- Which records are let through. -/
abbrev Filter := Record → Bool

/-- Lets the records of a level and of all graver ones through. -/
def Filter.upTo (level : Level) : Filter := fun r => r.level.rank ≤ level.rank

/-- Which records of a target, and of the targets within it, are let through. -/
structure Directive where
  target : String := ""
  /-- the highest rank that is let through -/
  limit : Nat

namespace Directive

/-- The words for limits, in the order of the limits. -/
def limitWords : List (List String) :=
  [["off", "0"], ["error", "1"], ["warn", "2"], ["info", "3"], ["debug", "4"], ["trace", "5"]]

def limit? (word : String) : Option Nat :=
  limitWords.findIdx? fun words => words.contains (Text.asciiLower word)

def isTarget (word : String) : Bool :=
  word ≠ "" && word.toList.all fun c => c.isAlphanum || c = '_' || c = ':' || c = '-'

/-- Reads a limit for everything, a target without a limit, or a target and its limit. -/
def read? (text : String) : Option Directive :=
  match limit? text, text.splitOn "=" with
  | some limit, _ => some { limit }
  | none, [target] => if isTarget target then some { target, limit := Level.trace.rank } else none
  | none, [target, word] =>
    if isTarget target then (limit? word).map fun limit => { target, limit } else none
  | none, _ => none

/-- The directive that counts for a target: the last one of those with the longest name. -/
def decisive? (directives : List Directive) (target : String) : Option Directive :=
  (directives.filter fun d => d.target.isPrefixOf target).foldl longer none
where
  longer : Option Directive → Directive → Option Directive
    | none, d => some d
    | some best, d => if best.target.length ≤ d.target.length then some d else some best

end Directive

/-- Reads directives with commas between them.  A text without any stands for the errors. -/
def Filter.read? (text : String) : Option Filter := do
  let directives ← ((text.splitOn ",").filter (· ≠ "")).mapM Directive.read?
  if directives.isEmpty then return .upTo .error
  return fun r => (Directive.decisive? directives r.target).any fun d => r.level.rank ≤ d.limit

/-- The filter of a run: the one that the environment describes, if that can be read. -/
def filterIn (read? : String → Option Filter) (env : List (String × String)) : Filter :=
  ((env.lookup "RUST_LOG").bind read?).getD (.upTo .info)

/-! ## Entries -/

/-- A piece of standard output. -/
inductive Entry where
  | printed (text : String)
  | record (r : Record)
deriving DecidableEq, Repr

namespace Entry

/-- A line that is printed. -/
def line (text : String) : Entry :=
  .printed (text ++ "\n")

def isPrinted : Entry → Bool
  | printed _ => true
  | record _ => false

/-- Whether an entry is let through.  What is printed always is. -/
def passes (filter : Filter) : Entry → Bool
  | printed _ => true
  | record r => filter r

def text : Entry → String
  | printed text => text
  | record r => r.text

end Entry

/-- The text of entries in turn. -/
def textOf (entries : List Entry) : String :=
  entries.foldr (fun entry rest => entry.text ++ rest) ""

end DecodingDesk.CommandLine
