import Namespacer.Patch
import Namespacer.Import.Ledger
import Namespacer.Path.Site
import Namespacer.Import.Statement

/-! The full form of a local specifier ends in a slash for a directory and in an extension for a
file. A specifier without either is completed by what is found on disk. -/
namespace Namespacer

structure Probe where
  isDir : Text → Bool
  isFile : Text → Bool

inductive Ending where
  | slash
  | extension
  deriving DecidableEq

def Ending.text : Ending → Text
  | slash => ['/']
  | extension => ['.', 'j', 's']

inductive PathForm where
  | complete
  | lacks (ending : Ending)
  | ambiguous
  | missing
  deriving DecidableEq

/-- Looks for the target of a specifier as a directory and as a file with the extension added. -/
def Site.formOf (site : Site) (probe : Probe) (specifier : Text) : PathForm :=
  let path := site.resolve specifier
  if !path.isLocal || path.isDirectory || path.namesFile then .complete
  else match path.location? site.root with
    | none => .complete
    | some location =>
      match probe.isDir location, probe.isFile (location ++ Ending.extension.text) with
      | true, false => .lacks .slash
      | false, true => .lacks .extension
      | true, true => .ambiguous
      | false, false => .missing

/-- Completes a quoted specifier wherever it stands in a text. -/
structure PathFix where
  ending : Ending
  quote : Quote
  specifier : Text
  deriving DecidableEq

namespace PathFix

def pattern (f : PathFix) : Text := f.quote.wrap f.specifier

def replacement (f : PathFix) : Text := f.quote.wrap (f.specifier ++ f.ending.text)

def patch (f : PathFix) : Patch := ⟨f.pattern, f.replacement⟩

def comment (f : PathFix) : String :=
  match f.ending with
  | .slash => s!"add missing trailing '/' to directory require: {f.pattern.str}"
  | .extension => s!"add missing trailing '.js' to file require: {f.pattern.str}"

end PathFix

def Statement.fix? (s : Statement) (site : Site) (probe : Probe) : Option PathFix :=
  match site.formOf probe s.specifier with
  | .lacks ending => some ⟨ending, s.quote, s.specifier⟩
  | _ => none

/-- A specifier as it will read once it is completed. -/
def Site.completed (site : Site) (probe : Probe) (specifier : Text) : Text :=
  match site.formOf probe specifier with
  | .lacks ending => specifier ++ ending.text
  | _ => specifier

def Ledger.noteForm (ledger : Ledger) (site : Site) (probe : Probe) (specifier : Text) : Ledger :=
  let path := site.resolve specifier
  match site.formOf probe specifier with
  | .ambiguous => ledger.warn path.text (.ambiguous path)
  | .missing => ledger.warn path.text (.missing path)
  | _ => ledger

end Namespacer
