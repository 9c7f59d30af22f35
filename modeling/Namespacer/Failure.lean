import Namespacer.Disk.Basic
import Namespacer.Fault
import Namespacer.Path.Glob
import Namespacer.Text.Quoted

/-! Why a run stops. A failure tells what was being done and why that did not work, as a chain of
messages from the outermost one inwards. -/
namespace Namespacer

open Text

inductive ReadError where
  | system (e : SystemError)
  | notUtf8
  deriving DecidableEq

def ReadError.message : ReadError → String
  | system e => e.message
  | notUtf8 => "stream did not contain valid UTF-8"

inductive Failure where
  | fault (f : Fault)
  | badPattern (pattern : Text) (e : Glob.SyntaxError)
  | emptyRoot
  /-- Something at `path`, at or below the root, could not be looked at. -/
  | walk (root path : Text) (e : SystemError)
  | read (path : Text) (e : ReadError)
  | write (path : Text) (e : SystemError)
  | parse (path : Text)
  /-- A temporary file at `path` could not be made in a directory. -/
  | temporary (dir path : Text) (e : SystemError)
  | replace (path : Text) (e : SystemError)
  | loadRefused
  | diskFull
  | noAnswer
  | noTerminal (module : ModulePath)
  | persistName (module : ModulePath) (cause : Failure)
  | survey (file : Text) (f : Fault)
  | collapse (module : ModulePath) (file : Text) (f : Fault)
  deriving DecidableEq

namespace Failure

def links : Failure → List String
  | fault f => [f.message]
  | badPattern pattern e => [s!"Invalid exclude pattern '{pattern.str}'", e.message]
  | emptyRoot => ["Failed to resolve ", "cannot make an empty path absolute"]
  | walk root path e =>
    [s!"Failed to walk {root.str}", s!"IO error for operation on {path.str}: {e.message}",
      e.message]
  | read path e => [s!"Failed to read {path.str}", e.message]
  | write path e => [s!"Failed to write {path.str}", e.message]
  | parse path => [s!"Failed to parse {path.str}"]
  | temporary dir path e =>
    let path := quoted path
    [s!"Failed to create temp file in {dir.str}", s!"{e.message} at path {path.str}"]
  | replace path e =>
    [s!"Failed to write {path.str}", s!"failed to persist temporary file: {e.message}", e.message]
  | loadRefused => ["load refused"]
  | diskFull => ["disk full"]
  | noAnswer => ["supplier failed"]
  | noTerminal module =>
    [s!"Failed to read a name for {module.str}", "IO error: not a terminal", "not a terminal"]
  | persistName module cause => s!"Failed to persist name for {module.str}" :: cause.links
  | survey file f => [s!"Failed to analyze {file.str}", f.message]
  | collapse module file f => [s!"Failed to rewrite {module.str} in {file.str}", f.message]

def message (f : Failure) : String := String.intercalate ": " f.links

/-- The refusal at the end of the chain. -/
def fault? : Failure → Option Fault
  | fault f => some f
  | survey _ f => some f
  | collapse _ _ f => some f
  | persistName _ cause => cause.fault?
  | _ => none

end Failure
end Namespacer
