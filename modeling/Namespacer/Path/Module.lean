import Namespacer.Path.Text

/-! The path that stands for a module. A local path is relative to the project root and starts
with `./`; anything else names a package. -/
namespace Namespacer

open Text

structure ModulePath where
  text : Text
  deriving DecidableEq, Repr

namespace ModulePath

def localMarker : Text := ['.', '/']

/-- Endings that show a path to name a file. -/
def fileEndings : List Text :=
  [['.', 'j', 's'], ['.', 'm', 'j', 's'], ['.', 'c', 'j', 's'], ['.', 'j', 's', 'o', 'n']]

def indexFile : Text := ['/', 'i', 'n', 'd', 'e', 'x', '.', 'j', 's']

def str (p : ModulePath) : String := Text.str p.text

def isLocal (p : ModulePath) : Bool := startsWith p.text localMarker

def isDirectory (p : ModulePath) : Bool := endsWith p.text ['/']

def namesFile (p : ModulePath) : Bool := fileEndings.any (endsWith p.text)

/-- The path under which a module is named: a directory and its index file are one module. -/
def key (p : ModulePath) : ModulePath :=
  match before? indexFile p.text with
  | some dir => ⟨dir ++ ['/']⟩
  | none => p

def location? (p : ModulePath) (root : Text) : Option Text :=
  (after? localMarker p.text).map fun relative =>
    match dropEndWhile (· == '/') relative with
    | [] => root
    | path => (split '/' path).foldl PathText.join root

end ModulePath
end Namespacer
