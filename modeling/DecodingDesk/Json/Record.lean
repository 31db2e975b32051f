import DecodingDesk.Json.Scalar
/-!
# Records in JSON

A record is read from an object or from an array.  In an object the names decide:
unknown ones are passed over, and a known one may be given only once.  In an array
the places decide: the fields stand in the order in which they are declared.
-/

namespace DecodingDesk.Json

abbrev Fields := List (String × Value)

/-- The members of an object with the names in `known`.  Every name must have a text, and
none of the known ones may come twice. -/
def knownMembers (known : List String) (members : List (Option String × Value)) :
    Option Fields := do
  let named ← members.mapM fun m => m.1.map fun name => (name, m.2)
  let fields := named.filter fun m => known.contains m.1
  if (fields.map Prod.fst).Nodup then some fields else none

/-- The fields of a record with the names in `known`, in the order of their declaration. -/
def Value.fields? (known : List String) : Value → Option Fields
  | .obj members => knownMembers known members
  | .arr items => if items.length ≤ known.length then some (known.zip items) else none
  | _ => none

namespace Fields

def required {α : Type} (fields : Fields) (name : String) (read : Value → Option α) : Option α :=
  (fields.lookup name).bind read

/-- A field with a default, which must have its type if it is there. -/
def optional {α : Type} (fields : Fields) (name : String) (read : Value → Option α)
    (default : α) : Option α :=
  match fields.lookup name with
  | none => some default
  | some v => read v

end Fields

end DecodingDesk.Json
