import Namespacer.Text.Basic

/-! File paths as they are written. A path has components: a leading slash, a leading `.`, `..`,
and names; doubled slashes and inner `.` count for nothing. -/
namespace Namespacer

open Text

namespace PathText

def isAbsolute (p : Text) : Bool := startsWith p ['/']

/-- Appends one path to another with a slash between them; an absolute path replaces the other. -/
def join (base path : Text) : Text :=
  if isAbsolute path then path
  else if base.isEmpty || endsWith base ['/'] then base ++ path
  else base ++ '/' :: path

/-- Whether a piece between slashes counts for nothing. -/
def isVoid (piece : Text) : Bool := piece.isEmpty || piece == ['.']

def names (p : Text) : List Text := (split '/' p).filter fun piece => !isVoid piece

def components (p : Text) : List Text :=
  if isAbsolute p then ['/'] :: names p
  else if (split '/' p).head? = some ['.'] then ['.'] :: names p
  else names p

/-- What is left of a list after a start, or the whole list if it starts otherwise. -/
def dropStart (start whole : List Text) : List Text :=
  if start.isPrefixOf whole then whole.drop start.length else whole

/-- A file's path below a root, or its whole path if it does not lie there. -/
def relativeTo (root file : Text) : Text :=
  Text.join '/' (dropStart (components root) (components file))

/-- An absolute form without needless parts. Exactly two leading slashes stay, `..` stays, and so
does a final slash. The empty path has none. -/
def absolute? (cwd p : Text) : Option Text :=
  if p.isEmpty then none
  else
    let base :=
      if startsWith p ['/', '/'] && !startsWith p ['/', '/', '/'] then ['/', '/']
      else if isAbsolute p then ['/']
      else cwd
    let full := (names p).foldl join base
    some (if endsWith p ['/'] then join full [] else full)

/-- The path without its last component, and without what counts for nothing before it. -/
def parent? (p : Text) : Option Text :=
  let pieces := split '/' p
  let (lead, body) :=
    if isAbsolute p then (['/'], pieces.drop 1)
    else if pieces.head? = some ['.'] then (['.', '/'], pieces.drop 1)
    else ([], pieces)
  match body.reverse.dropWhile isVoid with
  | [] => if lead = ['.', '/'] then some [] else none
  | _ :: above =>
    match (above.dropWhile isVoid).reverse with
    | [] => some (lead.take 1)
    | above => some (lead ++ Text.join '/' above)

def fileName (p : Text) : Text := (p.reverse.takeWhile (· != '/')).reverse

/-- What follows the last dot of a file name, unless nothing precedes it. -/
def extension? (name : Text) : Option Text :=
  match name.reverse.dropWhile (· != '.') with
  | _ :: _ :: _ => some (name.reverse.takeWhile (· != '.')).reverse
  | _ => none

end PathText
end Namespacer
