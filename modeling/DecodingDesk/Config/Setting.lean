import DecodingDesk.Json.Scalar
/-!
# Settings

What a source of configuration says for a key.  Only texts and counts are of use;
everything else is kept as `other`, because it still hides what an earlier source
says for the same key.
-/

namespace DecodingDesk.Config

inductive Setting where
  | text (s : String)
  | count (n : UInt64)
  | other
deriving DecidableEq, Repr

/-- What one source of configuration says, in the order in which it says it. -/
abbrev Layer := List (String × Setting)

namespace Setting

def ofValue : Json.Value → Setting
  | .str (some s) => .text s
  | .num n =>
    match n.toUInt64? with
    | some k => .count k
    | none => .other
  | _ => .other

end Setting

namespace Layer

/-- What a source says for a key: the last word counts. -/
def get? (layer : Layer) (key : String) : Option Setting :=
  layer.reverse.lookup key

end Layer

end DecodingDesk.Config
