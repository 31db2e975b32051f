import DecodingDesk.Text.Blank
/-!
# Batches

A token is a text, an item is a list of tokens, and a batch is a list of items,
which go to the model together.  A missing batch is an empty one.
-/

namespace DecodingDesk

/-- One source item, or one hypothesis for it. -/
abbrev Item := List String

/-- Items that go to the model together. -/
abbrev Batch := List Item

namespace Batch

def ofOption (batch : Option Batch) : Batch :=
  batch.getD []

/-- The batch in which each line is an item and each word a token. -/
def ofLines (lines : List String) : Batch :=
  lines.map Text.words

end Batch

end DecodingDesk
