import DecodingDesk.Text.Blank
/-!
# Devices

A model is placed on a device, which a caller names by a selector.  Blanks around
a selector and the case of its ASCII letters do not matter.
-/

namespace DecodingDesk

inductive Device where
  | cpu
  | cuda
  /-- The loader decides, and prefers an accelerator if there is one. -/
  | auto
deriving DecidableEq, Repr

namespace Device

def name : Device → String
  | cpu => "cpu"
  | cuda => "cuda"
  | auto => "auto"

/-- A selector without the differences that do not matter. -/
def normalize (selector : String) : String :=
  Text.asciiLower (Text.trim selector)

def ofName? (name : String) : Option Device :=
  if name = "cpu" then some cpu
  else if name = "cuda" ∨ name = "gpu" then some cuda
  else if name = "auto" then some auto
  else none

end Device

end DecodingDesk
