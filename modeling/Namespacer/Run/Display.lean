import Namespacer.Run.FileSize
import Namespacer.Path.Module
import Namespacer.Text.LowerCase

/-! What is shown during a run, line by line, with or without colours. -/
namespace Namespacer

open Text

structure Totals where
  filesScanned : Nat := 0
  filesChanged : Nat := 0
  patchesApplied : Nat := 0
  warnings : Nat := 0
  modulesNamed : Nat := 0
  symbolsQualified : Nat := 0
  deriving DecidableEq

namespace Display

inductive Style where
  | bold
  | dimmed
  | green
  | cyan
  | yellow
  | boldYellow
  | boldBlue

def Style.code : Style → Text
  | bold => ['1']
  | dimmed => ['2']
  | green => ['3', '2']
  | cyan => ['3', '6']
  | yellow => ['3', '3']
  | boldYellow => ['1', ';', '3', '3']
  | boldBlue => ['1', ';', '3', '4']

def Style.opening (style : Style) : Text := ['\x1b', '['] ++ style.code ++ ['m']

def closing : Text := ['\x1b', '[', '0', 'm']

/-- Sets a text in a style. A closing code inside it is followed by the opening code again. -/
def paint (color : Bool) (style : Style) (t : Text) : String :=
  Text.str (if color then
    style.opening ++ replaceAll closing (closing ++ style.opening) t ++ closing
  else t)

def fileHeader (color : Bool) (path : Text) (bytes : Nat) : String :=
  let shown := paint color .bold (if path.contains '/' then path else ['.', '/'] ++ path)
  let size := FileSize.text bytes
  s!"{shown} ({size} KB)\n"

def warning (color : Bool) (message : String) : String :=
  let tag := paint color .boldYellow "warn:".toList
  s!"{tag} {message}\n"

def change (color : Bool) (comment : String) : String :=
  let tag := paint color .green "[change]".toList
  s!"{tag} {comment}\n"

def renamed (color : Bool) (module : ModulePath) (name : Text) (symbols : List Text) : String :=
  let tag := paint color .green "[rename]".toList
  let shown := paint color .cyan name
  let list := String.intercalate ", " (symbols.map Text.str)
  s!"{tag} {module.str} => {shown} ({list})\n"

def infoTag (color : Bool) : String := paint color .boldBlue "info:".toList

def info (color : Bool) (message : String) : String :=
  let tag := infoTag color
  s!"{tag} {message}\n"

/-- Lists symbols and marks those in lower case. -/
def eliminated (color : Bool) (symbols : List Text) : String :=
  let title := paint color .bold "Eliminated identifiers:".toList
  let mark := paint color .yellow "<==========".toList
  let lines := symbols.map fun symbol =>
    if isLowerCase symbol then s!"{symbol.str} {mark}\n" else s!"{symbol.str}\n"
  s!"{title}\n" ++ String.join lines ++ "\n"

def totals (color : Bool) (s : Totals) : String :=
  let title := paint color .bold "Summary:".toList
  s!"\n{title} Files: {s.filesScanned} scanned, {s.filesChanged} changed; " ++
    s!"Patches: {s.patchesApplied}; Warnings: {s.warnings}\n" ++
    s!"         Modules named: {s.modulesNamed}, Symbols rewritten: {s.symbolsQualified}\n"

end Display

/-- What was printed, on the output and on the error channel. -/
structure Console where
  out : String := ""
  err : String := ""

instance : Append Console := ⟨fun a b => ⟨a.out ++ b.out, a.err ++ b.err⟩⟩

end Namespacer
