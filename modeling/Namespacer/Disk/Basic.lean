import Namespacer.Path.Text
import Namespacer.Table

/-! A disk as a value: directories, regular files and symbolic links, with a working directory.
Looking up a path follows links the way an operating system does. Names and paths are texts, so
that entries whose names are not UTF-8 are left out of account. -/
namespace Namespacer

open Text

inductive Content where
  | text (t : Text)
  /-- Bytes that are not UTF-8. -/
  | binary (bytes : List UInt8)
  deriving DecidableEq

def Content.ofBytes (bytes : ByteArray) : Content :=
  match String.fromUTF8? bytes with
  | some s => text s.toList
  | none => binary bytes.toList

inductive Node where
  | file (content : Content)
  | link (target : Text)
  /-- The entries of a directory, sorted by name. -/
  | dir (entries : List (Text × Node))

inductive SystemError where
  | notFound
  | busy
  | notDirectory
  | isDirectory
  | invalidArgument
  | nameTooLong
  | tooManyLinks
  | nulInName
  deriving DecidableEq

def SystemError.message : SystemError → String
  | notFound => "No such file or directory (os error 2)"
  | busy => "Device or resource busy (os error 16)"
  | notDirectory => "Not a directory (os error 20)"
  | isDirectory => "Is a directory (os error 21)"
  | invalidArgument => "Invalid argument (os error 22)"
  | nameTooLong => "File name too long (os error 36)"
  | tooManyLinks => "Too many levels of symbolic links (os error 40)"
  | nulInName => "file name contained an unexpected NUL byte"

namespace Node

/-- The node at the end of a list of names, with no link followed. -/
def descend? : Node → List Text → Option Node
  | node, [] => some node
  | dir entries, name :: names => (Table.findIn name entries).bind fun child => descend? child names
  | _, _ :: _ => none

def entriesOf : Option Node → List (Text × Node)
  | some (dir entries) => entries
  | _ => []

/-- Puts a node at the end of a list of names, with directories on the way as needed. -/
def place (node : Node) : List Text → List (Text × Node) → List (Text × Node)
  | [], entries => entries
  | [name], entries => Table.insertIn name node entries
  | name :: names, entries =>
    Table.insertIn name (dir (place node names (entriesOf (Table.findIn name entries)))) entries

mutual

/-- The regular files at or below a node that lies at `path`, in the order of a walk. -/
def files (path : Text) : Node → List (Text × Content)
  | file content => [(path, content)]
  | link _ => []
  | dir entries => filesIn path entries

def filesIn (path : Text) : List (Text × Node) → List (Text × Content)
  | [] => []
  | (name, node) :: rest => files (PathText.join path name) node ++ filesIn path rest

end

end Node

structure Disk where
  top : List (Text × Node)
  /-- The names that lead from there to the working directory. -/
  cwd : List Text

namespace Disk

def blank (cwd : List Text) : Disk := ⟨Node.place (.dir []) cwd [], cwd⟩

def node? (disk : Disk) (names : List Text) : Option Node := (Node.dir disk.top).descend? names

def cwdText (disk : Disk) : Text := '/' :: Text.join '/' disk.cwd

def maxNameSize : Nat := 255

def maxPathSize : Nat := 4095

def maxLinks : Nat := 40

/-- The steps of a path. A final slash asks for a directory, as a final `.` does. -/
def steps (path : Text) : List Text :=
  (split '/' path).filter (fun piece => !piece.isEmpty) ++
    if endsWith path ['/'] then [['.']] else []

/-- How far a path can be followed up to the next link. Places are lists of names, the last name
first. -/
inductive Progress where
  | arrived (place : List Text)
  | jump (place : List Text) (target : Text) (rest : List Text)

def advance (disk : Disk) (followLast : Bool) (place : List Text) :
    List Text → Except SystemError Progress
  | [] => .ok (.arrived place)
  | step :: rest =>
    match disk.node? place.reverse with
    | some (.dir entries) =>
      if step = ['.'] then disk.advance followLast place rest
      else if step = ['.', '.'] then disk.advance followLast place.tail rest
      else if maxNameSize < Text.size step then .error .nameTooLong
      else match Table.findIn step entries with
        | none => .error .notFound
        | some (.link target) =>
          if followLast || !rest.isEmpty then .ok (.jump place target rest)
          else .ok (.arrived (step :: place))
        | some _ => disk.advance followLast (step :: place) rest
    | _ => .error .notDirectory

def follow (disk : Disk) (followLast : Bool) (place todo : List Text) (links : Nat) :
    Except SystemError (List Text) :=
  match disk.advance followLast place todo with
  | .error e => .error e
  | .ok (.arrived place) => .ok place.reverse
  | .ok (.jump place target rest) =>
    match links with
    | 0 => .error .tooManyLinks
    | links + 1 =>
      let start := if PathText.isAbsolute target then [] else place
      disk.follow followLast start (steps target ++ rest) links

/-- Refuses a path that no system call takes. -/
def checkPath (path : Text) : Except SystemError Unit :=
  if path.isEmpty then .error .notFound
  else if path.contains '\x00' then .error .nulInName
  else if maxPathSize < Text.size path then .error .nameTooLong
  else .ok ()

def startOf (disk : Disk) (path : Text) : List Text :=
  if PathText.isAbsolute path then [] else disk.cwd

/-- The names that lead to what a path means. A link at its end is followed on demand. -/
def locate (disk : Disk) (path : Text) (followLast : Bool) : Except SystemError (List Text) := do
  checkPath path
  disk.follow followLast (disk.startOf path).reverse (steps path) maxLinks

def find? (disk : Disk) (path : Text) : Option Node :=
  match disk.locate path true with
  | .ok names => disk.node? names
  | .error _ => none

def isDir (disk : Disk) (path : Text) : Bool :=
  match disk.find? path with
  | some (.dir _) => true
  | _ => false

def isFile (disk : Disk) (path : Text) : Bool :=
  match disk.find? path with
  | some (.file _) => true
  | _ => false

def present (disk : Disk) (path : Text) : Bool := (disk.find? path).isSome

def read (disk : Disk) (path : Text) : Except SystemError Content := do
  match disk.node? (← disk.locate path true) with
  | some (.file content) => .ok content
  | some _ => .error .isDirectory
  | none => .error .notFound

def placeAt (disk : Disk) (names : List Text) (node : Node) : Disk :=
  { disk with top := Node.place node names disk.top }

def write (disk : Disk) (path t : Text) : Except SystemError Disk := do
  let names ← disk.locate path true
  match disk.node? names with
  | some (.file _) => .ok (disk.placeAt names (.file (.text t)))
  | some _ => .error .isDirectory
  | none => .error .notFound

/-- The names between the slashes of a path to a file, and where the last of them is looked up. -/
def holder (disk : Disk) (path : Text) : Except SystemError (List Text × List Text) := do
  let pieces := (split '/' path).filter fun piece => !piece.isEmpty
  let names ← disk.follow true (disk.startOf path).reverse pieces.dropLast maxLinks
  .ok (pieces, names)

def checkNew (disk : Disk) (path : Text) : Except SystemError Unit := do
  checkPath path
  let (_, names) ← disk.holder path
  match disk.node? names with
  | some (.dir _) => .ok ()
  | _ => .error .notDirectory

/-- Moves a new regular file to a path. It takes the place of a file or a link there, but not of a
directory. -/
def moveInto (disk : Disk) (path t : Text) : Except SystemError Disk := do
  if path.contains '\x00' then .error .invalidArgument
  checkPath path
  let (pieces, names) ← disk.holder path
  match disk.node? names with
  | some (.dir entries) =>
    match pieces.getLast? with
    | none => .error .busy
    | some name =>
      if name = ['.'] ∨ name = ['.', '.'] then .error .busy
      else if maxNameSize < Text.size name then .error .nameTooLong
      else if endsWith path ['/'] then .error .notDirectory
      else match Table.findIn name entries with
        | some (.dir _) => .error .isDirectory
        | _ => .ok (disk.placeAt (names ++ [name]) (.file (.text t)))
  | _ => .error .notDirectory

/-- Puts a node at a path, with directories on the way as needed. A directory that is there stays,
and a file is written through a link. -/
def put (disk : Disk) (path : Text) (node : Node) : Disk :=
  let names := PathText.names path
  let above := match disk.follow true (disk.startOf path).reverse names.dropLast maxLinks with
    | .ok found => found
    | .error _ => disk.startOf path ++ names.dropLast
  let here := above ++ names.getLast?.toList
  match node, disk.locate path true with
  | .dir [], .ok _ => disk
  | .file _, .ok found => disk.placeAt found node
  | _, _ => disk.placeAt here node

def filesBelow (disk : Disk) (names : List Text) : List (Text × Content) :=
  Node.filesIn [] (Node.entriesOf (disk.node? names))

/-- The regular files below a directory that came, went or changed, each with what it holds now. -/
def changesBelow (names : List Text) (before after : Disk) : List (Text × Option Content) :=
  let old := before.filesBelow names
  let new := after.filesBelow names
  (new.filter fun e => Table.findIn e.1 old ≠ some e.2).map (fun e => (e.1, some e.2)) ++
    (old.filter fun e => (Table.findIn e.1 new).isNone).map fun e => (e.1, none)

end Disk
end Namespacer
