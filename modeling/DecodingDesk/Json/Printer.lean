import DecodingDesk.Json.Value
import DecodingDesk.Json.Quoted
/-!
# Writing JSON

The compact form: no blanks, members in their order, numbers as the value has
them.  The function for a list of items or members writes the closing bracket
too, so each function writes what one function of the reader reads.
-/

namespace DecodingDesk.Json

def stringChars : Option String → List Char
  | some s => Quoted.encode s
  | none => Quoted.unpaired

mutual

/-- The compact form of a value. -/
def Value.chars : Value → List Char
  | .null => ['n', 'u', 'l', 'l']
  | .bool true => ['t', 'r', 'u', 'e']
  | .bool false => ['f', 'a', 'l', 's', 'e']
  | .num n => n.chars
  | .str t => stringChars t
  | .arr [] => ['[', ']']
  | .arr (v :: rest) => '[' :: v.chars ++ itemChars rest
  | .obj [] => ['{', '}']
  | .obj ((name, v) :: rest) => '{' :: stringChars name ++ ':' :: v.chars ++ memberChars rest

/-- What follows an item of an array. -/
def itemChars : List Value → List Char
  | [] => [']']
  | v :: rest => ',' :: v.chars ++ itemChars rest

/-- What follows a member of an object. -/
def memberChars : List (Option String × Value) → List Char
  | [] => ['}']
  | (name, v) :: rest => ',' :: stringChars name ++ ':' :: v.chars ++ memberChars rest

end

def Value.print (v : Value) : String :=
  String.ofList v.chars

end DecodingDesk.Json
