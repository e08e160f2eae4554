/-!
# Files

What a program asks of the place where files are kept, and why the answer may be no. The operations
run in any monad: on a disk, or on a tree in memory.

In a tree in memory, the parts of a path stand between slashes. A part leads on only from a
directory; the empty part and `.` stay where they are, and `..` goes up. So a slash at the end asks
for a directory. A path that starts with a slash starts from the root, any other from the working
directory.
-/

namespace StepGraph

/-- Why a file cannot be read or written. -/
inductive FileError where
  | notFound
  /-- A part of the path that should lead on is a file. -/
  | notDirectory
  | isDirectory
  /-- The path, or a name in it, has too many bytes. -/
  | nameTooLong
  /-- The path holds the character that ends a path for the system. -/
  | nulInPath
  /-- The bytes are not a text in UTF-8. -/
  | notText
  /-- Anything else, in the words of the system. -/
  | other (reason : String)
  deriving DecidableEq, Repr

/-- The wording of an error. -/
def FileError.message : FileError → String
  | notFound => "No such file or directory (os error 2)"
  | notDirectory => "Not a directory (os error 20)"
  | isDirectory => "Is a directory (os error 21)"
  | nameTooLong => "File name too long (os error 36)"
  | nulInPath => "file name contained an unexpected NUL byte"
  | notText => "stream did not contain valid UTF-8"
  | other reason => reason

/-- Reading and writing the text under a path. -/
structure Files (m : Type → Type) where
  read : String → m (Except FileError String)
  write : String → String → m (Except FileError Unit)

/-! ## Trees -/

/-- What a path leads to. -/
inductive FileTree.Entry where
  | file (bytes : ByteArray)
  | directory

/-- Files and directories by their places. A place lists the parts that lead there: from the working
directory, with one `..` for each level above it, or from the root, which is the part `/`. -/
structure FileTree where
  entries : List (List String × FileTree.Entry) := []

namespace FileTree

/-- The parts of a path. -/
def parts (path : String) : List String := (path.toList.splitOn '/').map String.ofList

/-- The place of the root. -/
def root : List String := ["/"]

/-- Where a path starts. -/
def start (path : String) : List String := if path.startsWith '/' then root else []

/-- The place is the working directory or one above it. These and the root are always there. -/
def isAbove (place : List String) : Bool := place.all (· == "..")

/-- The place that holds a place. The root holds itself. -/
def up (place : List String) : List String :=
  if place = root then root
  else if isAbove place then place ++ [".."]
  else place.dropLast

/-- Where one part leads from a directory. -/
def next (place : List String) (part : String) : List String :=
  if part = "" ∨ part = "." then place
  else if part = ".." then up place
  else place ++ [part]

/-- How many bytes a name may have. -/
def nameLimit : Nat := 255

/-- How many bytes a path may have. -/
def pathLimit : Nat := 4095

/-- Why a path leads nowhere, whatever files there are. -/
def pathFault? (path : String) : Option FileError :=
  if path.isEmpty then some .notFound
  else if path.contains '\x00' then some .nulInPath
  else if pathLimit < path.utf8ByteSize then some .nameTooLong
  else none

variable (t : FileTree)

/-- What is found at a place. -/
def find? (place : List String) : Option Entry :=
  if isAbove place || place == root then some .directory
  else (t.entries.find? (·.1 == place)).map Prod.snd

/-- Where the parts lead from `place`. The end need not exist. -/
def walk (place : List String) : List String → Except FileError (List String)
  | [] => .ok place
  | part :: rest =>
    match t.find? place with
    | none => .error .notFound
    | some (.file _) => .error .notDirectory
    | some .directory =>
      if nameLimit < part.utf8ByteSize then .error .nameTooLong else walk (next place part) rest

/-- Where the parts of a path lead. -/
def resolve (path : String) (parts : List String) : Except FileError (List String) :=
  match pathFault? path with
  | some e => .error e
  | none => t.walk (start path) parts

/-- The text at a place. -/
def textAt (place : List String) : Except FileError String :=
  match t.find? place with
  | none => .error .notFound
  | some .directory => .error .isDirectory
  | some (.file bytes) =>
    match String.fromUTF8? bytes with
    | some text => .ok text
    | none => .error .notText

/-- The text under a path. -/
def read (path : String) : Except FileError String :=
  match t.resolve path (parts path) with
  | .error e => .error e
  | .ok place => t.textAt place

/-- Puts an entry at a place. -/
def put (place : List String) (entry : Entry) : FileTree :=
  ⟨(place, entry) :: t.entries.filter (·.1 != place)⟩

/-- The path without the slashes at its end. -/
def trimSlashes (path : String) : String :=
  String.ofList (path.toList.reverse.dropWhile (· == '/')).reverse

/-- The parts of the directory that holds what the parts lead to. -/
def enclosing (parts : List String) : List String := parts.dropLast ++ ["."]

/-- Where a file is to be written. Its directory must exist, and the path must not name a directory
by a slash at the end. -/
def target (path : String) : Except FileError (List String) :=
  if trimSlashes path = path then t.resolve path (parts path)
  else match t.resolve path (enclosing (parts (trimSlashes path))) with
    | .error e => .error e
    | .ok _ => .error .isDirectory

/-- Writes the text of a file, and makes the file if there is none. -/
def write (path text : String) : Except FileError FileTree :=
  match t.target path with
  | .error e => .error e
  | .ok place =>
    match t.find? place with
    | some .directory => .error .isDirectory
    | _ => .ok (t.put place (.file text.toUTF8))

/-- Makes the directories that are missing on the way along the parts from `place`, and gives the
place where the way ends. -/
def makeWay (t : FileTree) (place : List String) : List String → FileTree × List String
  | [] => (t, place)
  | part :: rest =>
    makeWay (if (t.find? place).isSome then t else t.put place .directory) (next place part) rest

/-- Puts an entry under a path, with the directories that it needs. -/
def place (path : String) (entry : Entry) : FileTree :=
  let (made, place) := t.makeWay (start path) (parts path)
  made.put place entry

/-- Takes away what is under a path. -/
def remove (path : String) : FileTree :=
  match t.resolve path (parts path) with
  | .error _ => t
  | .ok place => ⟨t.entries.filter fun e => !place.isPrefixOf e.1⟩

/-- The operations on a tree. -/
def files : Files (StateM FileTree) where
  read path := do return (← get).read path
  write path text := do
    match (← get).write path text with
    | .ok t => set t; return .ok ()
    | .error e => return .error e

end FileTree

end StepGraph
