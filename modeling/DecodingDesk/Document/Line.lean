import DecodingDesk.Decimal.Shortest
import DecodingDesk.Model.Output
import DecodingDesk.Text.Bytes
/-!
# Lines of output

Each hypothesis is one line: its tokens with a space between, after the score and
three bars if scores are shown.  A score is written with the fewest digits that read
back and never with a power of ten.
-/

namespace DecodingDesk.Document

open Model (Output)
open Text (Bytes encode)
open Decimal (Layout)

/-- Scores are written without a power of ten, and whole ones without a point; of two
equally near decimals the upper one is written. -/
def scoreLayout : Layout where
  tie := .up
  plain _ := true
  pointZero := false

def scoreText (x : Float32) : String :=
  match scoreLayout.numeral? x with
  | some n => n.text
  | none => if x.isNaN then "NaN" else if Decimal.isNegative x then "-inf" else "inf"

/-- What stands between a score and the tokens. -/
def separator : String := " ||| "

/-- The pieces in which a line is written. -/
def linePieces (withScores : Bool) (tokens : Item) (score : Float32) : List Bytes :=
  (if withScores then [encode (scoreText score), encode separator] else []) ++
    [encode (" ".intercalate tokens), [Text.lineFeed]]

/-- The pieces of the lines for the answers to a chunk.  A hypothesis without a score and a
score without a hypothesis have no line. -/
def chunkPieces (withScores : Bool) (os : List Output) : List Bytes :=
  os.flatMap fun o =>
    (o.hypotheses.zip o.scores).flatMap fun (tokens, score) => linePieces withScores tokens score

def rendering (withScores : Bool) (os : List Output) : Bytes :=
  (chunkPieces withScores os).flatten

end DecodingDesk.Document
