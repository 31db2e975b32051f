import DecodingDesk.Error
import DecodingDesk.Text.Bytes
/-!
# Files

A small file system: directories, regular files, and devices that take bytes but
give none.  A path is followed name by name, and every name on the way must be a
directory; so two spellings of a path can name the same place.  Writing goes
through a handle with a position of its own.
-/

namespace DecodingDesk

open Text (Bytes)

/-- The names on the way from the root to a place. -/
abbrev Place := List String

inductive Node where
  | directory
  | file (content : Bytes)
  /-- Gives nothing when it is read.  It has taken some bytes and takes at most `room` more. -/
  | device (taken : Bytes) (room : Option Nat)
deriving DecidableEq, Repr, Inhabited

/-- A file system and the directory in which relative paths start. -/
structure Files where
  nodes : List (Place × Node)
  current : Place
deriving DecidableEq, Repr, Inhabited

structure Handle where
  place : Place
  position : Nat := 0
deriving DecidableEq, Repr, Inhabited

namespace Files

def node? (fs : Files) (place : Place) : Option Node :=
  if place = [] then some .directory else fs.nodes.lookup place

def set (fs : Files) (place : Place) (node : Node) : Files :=
  { fs with nodes := (place, node) :: fs.nodes.filter fun n => n.1 ≠ place }

private theorem lookup_filter_ne {place other : Place} (h : other ≠ place)
    (nodes : List (Place × Node)) :
    (nodes.filter fun n => n.1 ≠ place).lookup other = nodes.lookup other := by
  induction nodes with
  | nil => rfl
  | cons n rest ih =>
    obtain ⟨p, node⟩ := n
    by_cases hp : p = place
    · have hne : (other == p) = false := by simp [hp, h]
      rw [List.filter_cons_of_neg (by simp [hp]), ih, List.lookup_cons, hne]
    · rw [List.filter_cons_of_pos (by simp [hp]), List.lookup_cons, List.lookup_cons, ih]

theorem node?_set_self (fs : Files) {place : Place} (node : Node) (h : place ≠ []) :
    (fs.set place node).node? place = some node := by
  simp [node?, set, h]

theorem node?_set_of_ne (fs : Files) {place other : Place} (node : Node) (h : other ≠ place) :
    (fs.set place node).node? other = fs.node? other := by
  by_cases ho : other = []
  · simp [node?, ho]
  · have hne : (other == place) = false := by simp [h]
    simp only [node?, ho, if_false, set]
    rw [List.lookup_cons, hne, lookup_filter_ne h]

/-- A name has at most this many bytes. -/
def maxNameSize : Nat := 255

/-- A path has fewer bytes than this. -/
def pathSizeLimit : Nat := 4096

/-- Follows names from a place on.  The place of the last name need not hold anything. -/
def walk (fs : Files) (place : Place) : List String → Except IoFault Place
  | [] => .ok place
  | name :: rest =>
    match fs.node? place with
    | none => .error .notFound
    | some .directory =>
      if name = "" ∨ name = "." then walk fs place rest
      else if name = ".." then walk fs place.dropLast rest
      else if maxNameSize < name.utf8ByteSize then .error .nameTooLong
      else walk fs (place ++ [name]) rest
    | some _ => .error .notDirectory

/-- Whether a path starts at the root. -/
def isAbsolute (path : String) : Bool :=
  path.toList.head? = some '/'

/-- The names of a path, and where they start. -/
def start (fs : Files) (path : String) : Place × List String :=
  let names := (path.toList.splitOn '/').map String.ofList
  (if isAbsolute path then [] else fs.current, names)

/-- Refuses a path that no file system call takes. -/
def checkPath (path : String) : Except IoFault Unit :=
  if path.toList.contains '\x00' then .error .nulInName
  else if path = "" then .error .notFound
  else if pathSizeLimit ≤ path.utf8ByteSize then .error .nameTooLong
  else .ok ()

def find (fs : Files) (path : String) : Except IoFault (Place × Node) := do
  checkPath path
  let (place, names) := fs.start path
  let place ← fs.walk place names
  match fs.node? place with
  | some node => .ok (place, node)
  | none => .error .notFound

def pathExists (fs : Files) (path : String) : Bool :=
  (fs.find path).isOk

/-- Opens a file for reading.  A directory can be opened too. -/
def openSource (fs : Files) (path : String) : Except IoFault Place :=
  (fs.find path).map Prod.fst

def contentAt (fs : Files) (place : Place) : Except IoFault Bytes :=
  match fs.node? place with
  | some (.file content) => .ok content
  | some (.device _ _) => .ok []
  | some .directory => .error .isDirectory
  | none => .error .notFound

def read (fs : Files) (path : String) : Except IoFault Bytes := do
  fs.contentAt (← fs.openSource path)

/-- The content of a regular file; nothing if the path names none. -/
def regular? (fs : Files) (path : String) : Option Bytes :=
  match fs.find path with
  | .ok (_, .file content) => some content
  | _ => none

/-- A path from the root to what a path names in a directory. -/
def join (directory : Place) (path : String) : String :=
  directory.foldr (fun name rest => "/" ++ name ++ rest) ("/" ++ path)

/-- The directory so many levels above the current one. -/
def above (fs : Files) (levels : Nat) : Place :=
  fs.current.take (fs.current.length - levels)

/-- The place at which a path creates a file.  A path that ends in a slash creates none. -/
def target (fs : Files) (path : String) : Except IoFault Place := do
  checkPath path
  let (place, names) := fs.start path
  if names.getLast? = some "" then
    let real := (names.reverse.dropWhile (· = "")).reverse
    let _ ← fs.walk place (real.dropLast ++ [""])
    .error .isDirectory
  else
    fs.walk place names

/-- Opens a file for writing and makes it empty, or creates it.  A device stays as it is. -/
def create (fs : Files) (path : String) : Except IoFault (Handle × Files) := do
  let place ← fs.target path
  match fs.node? place with
  | some .directory => .error .isDirectory
  | some (.device _ _) => .ok (⟨place, 0⟩, fs)
  | _ => .ok (⟨place, 0⟩, fs.set place (.file []))

/-- Content with some bytes written from a position on; a gap in front is filled with zeros. -/
def overwrite (content : Bytes) (position : Nat) (bytes : Bytes) : Bytes :=
  content.take position ++ List.replicate (position - content.length) 0 ++ bytes ++
    content.drop (position + bytes.length)

theorem overwrite_length_self (content bytes : Bytes) :
    overwrite content content.length bytes = content ++ bytes := by
  simp [overwrite]

/-- Writes bytes through a handle.  The answer tells how many were taken. -/
def write (fs : Files) (h : Handle) (bytes : Bytes) : Nat × Handle × Files :=
  match fs.node? h.place with
  | some (.file content) =>
    (bytes.length, { h with position := h.position + bytes.length },
      fs.set h.place (.file (overwrite content h.position bytes)))
  | some (.device taken room) =>
    let count := min bytes.length (room.getD bytes.length)
    (count, { h with position := h.position + count },
      fs.set h.place (.device (taken ++ bytes.take count) (room.map (· - count))))
  | _ => (0, h, fs)

/-- Puts content into a file, as far as the path allows that. -/
def put (fs : Files) (path : String) (content : Bytes) : Files :=
  match fs.create path with
  | .ok (h, fs) => (fs.write h content).2.2
  | .error _ => fs

/-- Makes a directory and those above it, as far as the path allows that. -/
def makeDirectories (fs : Files) (path : String) : Files :=
  let (place, names) := fs.start path
  (names.foldl step (place, fs)).2
where
  /-- Goes on to the directory of a name and makes it if there is nothing. -/
  step (here : Place × Files) (name : String) : Place × Files :=
    if name = "" ∨ name = "." then here
    else if name = ".." then (here.1.dropLast, here.2)
    else
      let place := here.1 ++ [name]
      match here.2.node? place with
      | none => (place, here.2.set place .directory)
      | some _ => (place, here.2)

/-- An empty working directory, a device that takes everything and one that takes nothing. -/
def empty : Files where
  nodes :=
    [(["work"], .directory), (["dev"], .directory),
     (["dev", "null"], .device [] none), (["dev", "full"], .device [] (some 0))]
  current := ["work"]

end Files

end DecodingDesk
