import Namespacer.Program.CommandLine
import Namespacer.Run.Basic

/-! Running a command: what it prints, what it leaves on disk, and its exit code. -/
namespace Namespacer

open Text

structure Exit where
  code : Nat := 0
  console : Console := {}
  disk : Disk

namespace Program

/-- Indents the lines of a message; the first one may be numbered. -/
def indented (number? : Option Nat) (message : String) : String :=
  let lead := match number? with
    | none => "    "
    | some n =>
      let digits := toString n
      String.ofList (List.replicate (5 - digits.length) ' ') ++ digits ++ ": "
  let inner := match number? with
    | none => "    "
    | some _ => "       "
  lead ++ String.intercalate ("\n" ++ inner) (message.splitOn "\n")

def causesFrom (n : Nat) : List String → List String
  | [] => []
  | cause :: rest => indented (some n) cause :: causesFrom (n + 1) rest

def failureReport (f : Failure) : String :=
  match f.links with
  | [] => "Error: \n"
  | [outer] => s!"Error: {outer}\n"
  | [outer, cause] => s!"Error: {outer}\n\nCaused by:\n" ++ indented none cause ++ "\n"
  | outer :: causes =>
    s!"Error: {outer}\n\nCaused by:\n" ++ String.intercalate "\n" (causesFrom 0 causes) ++ "\n"

def failed (disk : Disk) (console : Console) (f : Failure) : Exit :=
  { code := 1, console := console ++ { err := failureReport f }, disk }

def jsonList (items : List Text) : String :=
  match items with
  | [] => "[]"
  | items =>
    let lines := items.map fun t => "    " ++ Text.str (MapText.string t)
    "[\n" ++ String.intercalate ",\n" lines ++ "\n  ]"

def jsonReport (s : Totals) (eliminated : List Text) : String :=
  let list := jsonList eliminated
  let counts := [("files_changed", s.filesChanged), ("files_scanned", s.filesScanned),
    ("modules_named", s.modulesNamed), ("patches_applied", s.patchesApplied),
    ("symbols_rewritten", s.symbolsQualified), ("warnings", s.warnings)]
  let lines := counts.map fun c => "    \"" ++ c.1 ++ "\": " ++ toString c.2
  "\x7b\n  \"eliminated\": " ++ list ++ ",\n  \"summary\": \x7b\n" ++
    String.intercalate ",\n" lines ++ "\n  \x7d\n\x7d\n"

def orHere (dirs : List Text) : List Text := if dirs.isEmpty then [['.']] else dirs

def restructure (disk : Disk) (dirs : List Text) (map : Text) (respondent : Respondent)
    (options : RunOptions) (json : Bool) : Exit :=
  let color := options.color
  let store := Store.file map
  let opening := if options.verbose then Display.info color s!"module map: {map.str}" else ""
  let console : Console := { err := opening ++ store.notice disk color }
  match NameMap.ofStore store disk with
  | .error f => failed disk console (.fault f)
  | .ok names =>
    let run : Run := { disk, names, respondent, options, console }
    match run.visitRoots dirs with
    | (.error f, r) => failed r.disk r.console f
    | (.ok totals, r) =>
      let symbols := r.eliminatedByLength
      let closing : Console :=
        if json then { out := jsonReport totals symbols }
        else
          { out := Display.eliminated color symbols
            err := if options.verbose then Display.totals color totals else "" }
      { console := r.console ++ closing, disk := r.disk }

def scan (disk : Disk) (dirs : List Text) (filter : SourceFilter) : Exit :=
  match dirs.mapM fun dir => disk.sourcesUnder dir filter with
  | .error f => failed disk {} f
  | .ok lists =>
    let files := lists.flatten
    let lines := files.map fun file => s!"  {file.str}\n"
    { console := { out := s!"Would scan {files.length} files:\n" ++ String.join lines }, disk }

/-- The names as a table. Keys are filled up to the size of the longest, which counts bytes. -/
def nameTable (color : Bool) (names : Table Text) : String :=
  let width := (names.keys.map Text.size).foldl max 0
  String.join (names.entries.map fun e =>
    let key := Display.paint color .dimmed (e.1 ++ List.replicate (width - e.1.length) ' ')
    let name := Display.paint color .green e.2
    s!"  {key}  {name}\n")

def showMap (disk : Disk) (color : Bool) (map : Text) (json : Bool) : Exit :=
  let store := Store.file map
  let console : Console := { err := store.notice disk color }
  match NameMap.ofStore store disk with
  | .error f => failed disk console (.fault f)
  | .ok names =>
    let text := if json then Text.str (MapText.render names.names) ++ "\n"
      else if names.names.isEmpty then
        Display.info color s!"No module names assigned in {map.str}"
      else nameTable color names.names
    { console := console ++ { out := text }, disk }

def runCommand (disk : Disk) (color : Bool) : Command → Exit
  | .restructure dirs map excludes pathsOnly noDefaultExcludes yes json verbose =>
    match SourceFilter.parse excludes (!noDefaultExcludes) with
    | .error f => failed disk {} f
    | .ok filter =>
      restructure disk (orHere dirs) map (if yes then .accepting else .terminal)
        { pathsOnly, filter, verbose, quiet := json, color } json
  | .scan dirs excludes noDefaultExcludes =>
    match SourceFilter.parse excludes (!noDefaultExcludes) with
    | .error f => failed disk {} f
    | .ok filter => scan disk (orHere dirs) filter
  | .map map json => showMap disk color map json

/-- Without a command to run, only a request for help or the version counts as success. -/
def stopped (disk : Disk) (color : Bool) (stop : CommandLine.Stop) : Exit :=
  let text := stop.message color ++ "\n"
  match stop with
  | .help | .version => { console := { out := text }, disk }
  | _ => { code := 2, console := { err := text }, disk }

def run (disk : Disk) (color : Bool) (args : List Text) : Exit :=
  match CommandLine.parse args with
  | .error stop => stopped disk color stop
  | .ok command => runCommand disk color command

end Program
end Namespacer
