import DecodingDesk.Files
/-!
# Buffered writing

Pieces are collected and passed on in order.  A piece that does not fit into the
buffer has the buffer flushed first, and one as long as the buffer goes straight
through.  What a failed flush could not pass on stays in the buffer.
-/

namespace DecodingDesk.Document

open Text (Bytes)

/-- An open file and the bytes that it has still to get. -/
structure Writer where
  handle : Handle
  buffer : Bytes := []
deriving DecidableEq, Repr, Inhabited

namespace Writer

/-- The buffer holds at most this many bytes. -/
def capacity : Nat := 8192

/-- Passes the buffer on.  The answer says whether the file took all of it. -/
def flush (w : Writer) (fs : Files) : Bool × Writer × Files :=
  match fs.write w.handle w.buffer with
  | (count, handle, fs) =>
    (decide (count = w.buffer.length), { handle, buffer := w.buffer.drop count }, fs)

/-- Takes a piece into a buffer that has been flushed if it had to be. -/
def take (w : Writer) (fs : Files) (piece : Bytes) : Bool × Writer × Files :=
  if capacity ≤ piece.length then
    match fs.write w.handle piece with
    | (count, handle, fs) => (decide (count = piece.length), { w with handle }, fs)
  else (true, { w with buffer := w.buffer ++ piece }, fs)

def write (w : Writer) (fs : Files) (piece : Bytes) : Bool × Writer × Files :=
  if w.buffer.length + piece.length ≤ capacity then w.take fs piece
  else
    match w.flush fs with
    | (true, w, fs) => w.take fs piece
    | failed => failed

/-- Writes pieces in turn, up to the first failure. -/
def writeAll (w : Writer) (fs : Files) : List Bytes → Bool × Writer × Files
  | [] => (true, w, fs)
  | piece :: rest =>
    match w.write fs piece with
    | (true, w, fs) => w.writeAll fs rest
    | failed => failed

end Writer

end DecodingDesk.Document
