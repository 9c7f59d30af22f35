import Namespacer.Run.Display
import Namespacer.Name.Map
import Namespacer.Name.Respondent
import Namespacer.Disk.Sources
import Namespacer.Import.Survey

/-! A run over a project. Files are visited one after another: the specifiers of a file are
completed and the file is written, then its modules are named, its destructuring imports collapsed,
and the file is written again. A failure ends the run; what was done before it stays. -/
namespace Namespacer

open Text

structure RunOptions where
  /-- Only complete specifiers. -/
  pathsOnly : Bool := false
  filter : SourceFilter := {}
  verbose : Bool := false
  /-- Print nothing about single files but warnings. -/
  quiet : Bool := false
  color : Bool := false

structure Visit where
  /-- The path below the root. -/
  path : Text
  warnings : Warnings
  fixes : List PathFix
  /-- The modules whose imports were collapsed, with their names. -/
  renamed : List (ModulePath × Text)
  changed : Bool
  deriving DecidableEq

structure Run where
  disk : Disk
  names : NameMap
  respondent : Respondent
  options : RunOptions
  /-- The plain imports seen so far, over all files. -/
  plain : Table ModulePath := .empty
  eliminated : Table Unit := .empty
  totals : Totals := {}
  console : Console := {}
  asked : List NameQuestion := []

def Disk.probe (disk : Disk) : Probe := ⟨disk.isDir, disk.isFile⟩

def Store.notice (store : Store) (disk : Disk) (color : Bool) : String :=
  match store.load disk with
  | .ok _ => ""
  | .error e => Display.warning color s!"ignoring unreadable module map: {e.message}"

def RunOptions.announce (o : RunOptions) (path source : Text) (survey : Survey) : Console :=
  let header := if survey.callsForHeader then Display.fileHeader o.color path (Text.size source)
    else ""
  let changes := survey.fixes.map fun f => Display.change o.color f.comment
  let warnings := survey.warnings.toList.map fun w => Display.warning o.color w.2.message
  { out := if o.quiet then "" else header ++ String.join changes
    err := String.join warnings }

def RunOptions.announceName (o : RunOptions) (module : ModulePath) (d : Destructuring)
    (name : Text) : Console :=
  { out := if o.verbose && !o.quiet then Display.renamed o.color module name d.symbols else "" }

namespace Run

def readText (r : Run) (file : Text) : Except Failure Text :=
  match r.disk.read file with
  | .ok (.text t) => .ok t
  | .ok (.binary _) => .error (.read file .notUtf8)
  | .error e => .error (.read file (.system e))

def writeText (r : Run) (needed : Bool) (file t : Text) : Except Failure Run :=
  if needed then
    match r.disk.write file t with
    | .ok disk => .ok { r with disk }
    | .error e => .error (.write file e)
  else .ok r

def surveyed (r : Run) (path source : Text) (survey : Survey) : Run :=
  { r with
    console := r.console ++ r.options.announce path source survey
    totals := { r.totals with
      filesScanned := r.totals.filesScanned + 1
      warnings := r.totals.warnings + survey.warnings.size
      patchesApplied := r.totals.patchesApplied + survey.fixes.length } }

/-- Adds a file's plain imports to those seen so far; a name keeps its first module. -/
def remember (r : Run) (plain : Table ModulePath) : Run :=
  { r with plain := plain.entries.foldl (fun t e => t.insertNew e.1 e.2) r.plain }

def ask (r : Run) (question : NameQuestion) : Except Failure Text × Run :=
  let (answer, respondent) := r.respondent.ask question
  (answer, { r with respondent, asked := r.asked ++ [question] })

def assign (r : Run) (key : ModulePath) (name : Text) : Except Failure Unit × Run :=
  match r.names.assign r.disk key name r.plain with
  | (.error e, names, disk) => (.error e, { r with names, disk })
  | (.ok (), names, disk) =>
    let totals := { r.totals with modulesNamed := r.totals.modulesNamed + 1 }
    (.ok (), { r with names, disk, totals })

/-- The name of a module: the one it has, or else one that is asked for and stored. -/
def nameFor (r : Run) (module : ModulePath) (d : Destructuring) : Except Failure Text × Run :=
  let key := module.key
  match r.names.name? key with
  | some name => (.ok name, r)
  | none =>
    let suggestion := ModuleName.suggest key
    match r.ask ⟨key, d.literal, d.symbols, suggestion⟩ with
    | (.error e, r) => (.error e, r)
    | (.ok answer, r) =>
      match ModuleName.settle answer suggestion key with
      | .error f => (.error (.fault f), r)
      | .ok name =>
        match r.assign key name with
        | (.error e, r) => (.error e, r)
        | (.ok (), r) => (.ok name, r)

def credit (r : Run) (module : ModulePath) (d : Destructuring) (name : Text) : Run :=
  { r with
    console := r.console ++ r.options.announceName module d name
    eliminated := d.symbols.foldl (fun t symbol => t.insert symbol ()) r.eliminated
    totals := { r.totals with
      symbolsQualified := r.totals.symbolsQualified + d.symbols.length } }

/-- Collapses destructuring imports in a file's text, one after another. Gives the modules with
their names, and the new text. -/
def collapseAll (r : Run) (path : Text) : List (ModulePath × Destructuring) → Text →
    Except Failure (List (ModulePath × Text) × Text) × Run
  | [], t => (.ok ([], t), r)
  | (module, d) :: rest, t =>
    match r.nameFor module d with
    | (.error e, r) => (.error e, r)
    | (.ok name, r) =>
      match d.collapse path name t with
      | .error f => (.error (.collapse module path f), r)
      | .ok t =>
        match (r.credit module d name).collapseAll path rest t with
        | (.error e, r) => (.error e, r)
        | (.ok (renamed, t), r) => (.ok ((module.key, name) :: renamed, t), r)

/-- Ends the visit of a file. An empty line sets apart what was printed about collapsed imports. -/
def finish (r : Run) (collapsed changed : Bool) : Run :=
  { r with
    console := r.console ++ { out := if collapsed && !r.options.quiet then "\n" else "" }
    totals := { r.totals with
      filesChanged := r.totals.filesChanged + if changed then 1 else 0 } }

/-- Works on one file in place. -/
def visitFile (r : Run) (root file : Text) : Except Failure Visit × Run :=
  let path := PathText.relativeTo root file
  match r.readText file with
  | .error e => (.error e, r)
  | .ok source =>
    match Survey.ofSource ⟨root, path⟩ r.disk.probe r.names.owner? r.options.pathsOnly source with
    | .error f => (.error (.survey path f), r)
    | .ok survey =>
      let r := r.surveyed path source survey
      let patched := Patch.applyAll survey.patches source
      match r.writeText (patched ≠ source) file patched with
      | .error e => (.error e, r)
      | .ok r =>
        match (r.remember survey.plain).collapseAll path survey.destructured patched with
        | (.error e, r) => (.error e, r)
        | (.ok (renamed, t), r) =>
          let collapsed := !survey.destructured.isEmpty
          match r.writeText collapsed file t with
          | .error e => (.error e, r)
          | .ok r =>
            (.ok ⟨path, survey.warnings, survey.fixes, renamed, t ≠ source⟩,
              r.finish collapsed (t ≠ source))

def visitFiles (r : Run) (root : Text) : List Text → Except Failure Unit × Run
  | [] => (.ok (), r)
  | file :: files =>
    match r.visitFile root file with
    | (.error e, r) => (.error e, r)
    | (.ok _, r) => r.visitFiles root files

def counted (r : Run) (root : Text) (files : List Text) : Run :=
  let line := Display.info r.options.color s!"{files.length} source files under {root.str}"
  { r with console := r.console ++ { err := if r.options.verbose then line else "" } }

def visitRoot (r : Run) (root : Text) : Except Failure Unit × Run :=
  match PathText.absolute? r.disk.cwdText root with
  | none => (.error .emptyRoot, r)
  | some root =>
    match r.disk.sourcesUnder root r.options.filter with
    | .error e => (.error e, r)
    | .ok files => (r.counted root files).visitFiles root files

def visitRoots (r : Run) : List Text → Except Failure Totals × Run
  | [] => (.ok r.totals, r)
  | root :: roots =>
    match r.visitRoot root with
    | (.error e, r) => (.error e, r)
    | (.ok (), r) => r.visitRoots roots

/-- The symbols qualified so far, the shortest first. -/
def eliminatedByLength (r : Run) : List Text :=
  r.eliminated.keys.mergeSort fun a b => Text.size a ≤ Text.size b

end Run
end Namespacer
