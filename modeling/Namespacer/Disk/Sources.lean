import Namespacer.Failure

/-! Finding source files. A walk goes through the entries of a directory in the order of their
names and leaves out what the filter excludes, with all that lies below it. As on the disk, names
are texts: entries whose names are not UTF-8, which no filter would exclude, are not described. -/
namespace Namespacer

open Text

def sourceExtensions : List Text := [['j', 's'], ['m', 'j', 's'], ['c', 'j', 's']]

def isSourceName (name : Text) : Bool :=
  match PathText.extension? name with
  | some extension => sourceExtensions.contains extension
  | none => false

structure SourceFilter where
  patterns : List Glob := []
  /-- Leave out hidden entries and installed dependencies. -/
  defaults : Bool := true

namespace SourceFilter

def parse (patterns : List Text) (defaults : Bool) : Except Failure SourceFilter := do
  let patterns ← patterns.mapM fun p =>
    match Glob.parse p with
    | .ok glob => .ok glob
    | .error e => .error (Failure.badPattern p e)
  .ok { patterns, defaults }

def dependencies : Text := ['n', 'o', 'd', 'e', '_', 'm', 'o', 'd', 'u', 'l', 'e', 's']

/-- Whether an entry is left out, given its name and its path below the root. -/
def excludes (filter : SourceFilter) (name relative : Text) : Bool :=
  filter.defaults && (startsWith name ['.'] || name == dependencies) ||
    filter.patterns.any fun p => p.fits name || p.fits relative

/-- The default rule leaves out names that begin with a dot and the directory of dependencies. A
pattern leaves out what it fits by name, and what it fits by the path below the root. -/
theorem excludes_iff {filter : SourceFilter} {name relative : Text} :
    filter.excludes name relative = true ↔
      filter.defaults = true ∧ ((∃ rest, name = '.' :: rest) ∨ name = dependencies) ∨
        ∃ p ∈ filter.patterns, p.fits name = true ∨ p.fits relative = true := by
  have hdot : startsWith name ['.'] = true ↔ ∃ rest, name = '.' :: rest := by
    rw [startsWith, Option.isSome_iff_exists]
    exact exists_congr fun _ => after?_eq_some_iff
  simp [excludes, hdot]

mutual

/-- The source files at or below a node that lies at `path`, and at `relative` below the root. A
directory whose path is too long cannot be looked into. -/
def sources (filter : SourceFilter) (root path relative : Text) :
    Node → Except Failure (List Text)
  | .file _ => .ok (if isSourceName (PathText.fileName path) then [path] else [])
  | .link _ => .ok []
  | .dir entries =>
    if Disk.maxPathSize < Text.size path then .error (.walk root path .nameTooLong)
    else filter.sourcesIn root path relative entries

def sourcesIn (filter : SourceFilter) (root path relative : Text) :
    List (Text × Node) → Except Failure (List Text)
  | [] => .ok []
  | (name, node) :: rest => do
    let below := PathText.join relative name
    let first ← if filter.excludes name below then .ok []
      else filter.sources root (PathText.join path name) below node
    let others ← filter.sourcesIn root path relative rest
    .ok (first ++ others)

end

end SourceFilter

/-- The source files under a root. Links are not followed, except that the root may be a link to a
directory. -/
def Disk.sourcesUnder (disk : Disk) (root : Text) (filter : SourceFilter) :
    Except Failure (List Text) :=
  match disk.locate root false with
  | .error e => .error (.walk root root e)
  | .ok names =>
    match disk.node? names with
    | some (.link _) =>
      match disk.locate root true with
      | .error e => .error (.walk root root e)
      | .ok names => filter.sourcesIn root root [] (Node.entriesOf (disk.node? names))
    | some node => filter.sources root root [] node
    | none => .ok []

end Namespacer
