import Namespacer.Program.Basic

/-! The program. It reads the directories that a command concerns, runs the command on what it has
read, and carries out the changes that this leaves. -/
namespace Namespacer

/-- Reads what lies at a path and below it. A link is read as a link to where it leads; one that
leads nowhere is left out. -/
partial def readNode (path : String) : IO (Option Node) := do
  let file ← IO.FS.realPath path
  match (← file.metadata).type with
  | .dir =>
    let mut entries := []
    for entry in ← file.readDir do
      let name := entry.fileName.toList
      let kind := (← entry.path.symlinkMetadata).type
      if kind == .symlink then
        if ← entry.path.pathExists then
          let target ← IO.FS.realPath entry.path
          entries := Table.insertIn name (.link target.toString.toList) entries
      else if let some node ← readNode entry.path.toString then
        entries := Table.insertIn name node entries
    return some (.dir entries)
  | .file => return some (.file (.ofBytes (← IO.FS.readBinFile file)))
  | _ => return none

def readInto (disk : Disk) (path : String) : IO Disk := do
  try
    let place := (← IO.FS.realPath path).toString.toList
    match ← readNode path with
    | some node => return disk.placeAt (PathText.names place) node
    | none => return disk
  catch _ => return disk

/-- Carries out the changes to regular files. A file that takes the place of a link is written anew,
not through the link. -/
def writeBack (before after : Disk) : IO Unit := do
  let here ← IO.currentDir
  for (path, content?) in Disk.changesBelow [] before after do
    let file := here / ("/" ++ Text.str path)
    match content? with
    | some (.text t) =>
      if ← file.pathExists then
        if (← file.symlinkMetadata).type == .symlink then IO.FS.removeFile file
      IO.FS.writeFile file (Text.str t)
    | some (.binary _) => pure ()
    | none => IO.FS.removeFile file

/-- Colours are forced, forbidden, or used on a terminal. -/
def wantsColor : IO Bool := do
  if ((← IO.getEnv "CLICOLOR_FORCE").getD "0") != "0" then return true
  if (← IO.getEnv "NO_COLOR").isSome then return false
  return ((← IO.getEnv "CLICOLOR").getD "1") != "0" && (← (← IO.getStdout).isTty)

/-- The paths outside the working directory that a command may concern. -/
def concerned (args : List Text) : List String :=
  match CommandLine.parse args with
  | .ok (.restructure dirs map ..) => (map :: dirs).map Text.str
  | .ok (.scan dirs ..) => dirs.map Text.str
  | .ok (.map map _) => [map.str]
  | .error _ => []

def runProgram (args : List String) : IO UInt32 := do
  let args := args.map String.toList
  let cwd := PathText.names (← IO.currentDir).toString.toList
  let mut disk := Disk.blank cwd
  for path in concerned args ++ ["."] do
    disk ← readInto disk path
  let exit := Program.run disk (← wantsColor) args
  writeBack disk exit.disk
  IO.print exit.console.out
  IO.eprint exit.console.err
  return exit.code.toUInt32

end Namespacer

def main (args : List String) : IO UInt32 := Namespacer.runProgram args
