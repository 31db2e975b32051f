/-!
# Bytes and lines

Files hold bytes.  A text is turned into bytes by UTF-8, and a line of bytes is
turned into a text only if it is valid UTF-8.  Lines end at a line feed; one
carriage return directly before it belongs to the line end, and a last line
without a line feed counts as a line unless it is empty.
-/

namespace DecodingDesk.Text

abbrev Bytes := List UInt8

def encode (s : String) : Bytes :=
  s.toList.flatMap String.utf8EncodeChar

/-- The text whose UTF-8 form the bytes are, if they are one. -/
def decode (bs : Bytes) : Option String :=
  String.fromUTF8? bs.toByteArray

/-- The byte that ends a line. -/
def lineFeed : UInt8 := 10

/-- The byte that may stand before a line feed as part of the line end. -/
def carriageReturn : UInt8 := 13

/-- The line without one carriage return at its end. -/
def dropReturn (line : Bytes) : Bytes :=
  if line.getLast? = some carriageReturn then line.dropLast else line

/-- The lines of a file.  Of the pieces between line feeds all but the last end in one;
the last is a line of its own only if it is not empty, and keeps a carriage return. -/
def lines (content : Bytes) : List Bytes :=
  let pieces := content.splitOn lineFeed
  pieces.dropLast.map dropReturn ++ pieces.getLast?.toList.filter fun last => !last.isEmpty

end DecodingDesk.Text
