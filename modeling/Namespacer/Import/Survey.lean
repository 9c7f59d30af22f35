import Namespacer.Import.Basic
import Namespacer.Name.Basic
import Namespacer.Import.PathForm

/-! What the imports of a source text call for: specifiers to complete, destructuring imports to
collapse, plain imports to remember, and warnings. Nothing here changes the text. -/
namespace Namespacer

structure Survey extends Ledger where
  /-- One fix for each literal that needs one, in order of first appearance. -/
  fixes : List PathFix := []
  deriving DecidableEq

namespace Survey

def addFix (a : Survey) (f : PathFix) : Survey :=
  if a.fixes.any fun g => g.pattern = f.pattern then a else { a with fixes := a.fixes ++ [f] }

def checkForm (a : Survey) (site : Site) (probe : Probe) (s : Statement) : Survey :=
  let ledger := a.toLedger.noteForm site probe s.specifier
  let noted := { a with toLedger := ledger }
  match s.fix? site probe with
  | none => noted
  | some f => noted.addFix f

/-- Files a destructuring import under the key of its module. Only one of a local module, with
plain names for entries, can be collapsed. -/
def addDestructuring (a : Survey) (site : Site) (keyword : Keyword) (inner : Text)
    (quote : Quote) (specifier : Text) : Survey :=
  let path := site.resolve specifier
  let binding := (Binding.braces inner).text
  let literal := quote.wrap specifier
  let symbols := Binding.symbolsOf inner
  if !path.isLocal || symbols.isEmpty then a
  else match symbols.find? fun s => !isIdentifier s with
    | some entry =>
      let ledger := a.warn path.text (.unsupported keyword.text binding literal entry)
      { a with toLedger := ledger }
    | none =>
      let ledger := (a.enterDestructured path.key ⟨literal, binding, symbols⟩ keyword.text).2
      { a with toLedger := ledger }

/-- Files a plain import. `owner?` gives the module that a name was given to; a plain import must
not take the name of another module. -/
def addPlain (a : Survey) (site : Site) (owner? : Text → Option ModulePath) (keyword : Keyword)
    (name specifier : Text) : Except Fault Survey :=
  let path := site.resolve specifier
  match (owner? name).filter (· ≠ path.key) with
  | some owner => .error (.importTakesName name owner)
  | none => .ok { a with toLedger := (a.enterPlain name path keyword.text specifier).2 }

/-- Takes one more statement into account, with its specifier as it will read once completed. -/
def add (site : Site) (probe : Probe) (owner? : Text → Option ModulePath) (pathsOnly : Bool)
    (a : Survey) (s : Statement) : Except Fault Survey :=
  let checked := a.checkForm site probe s
  let specifier := site.completed probe s.specifier
  match s.binding with
  | .name id => checked.addPlain site owner? s.keyword id specifier
  | .braces inner =>
    .ok (if pathsOnly then checked
      else checked.addDestructuring site s.keyword inner s.quote specifier)

/-- Surveys the imports of a source text. With `pathsOnly` destructuring imports are left out. -/
def ofSource (site : Site) (probe : Probe) (owner? : Text → Option ModulePath) (pathsOnly : Bool)
    (source : Text) : Except Fault Survey :=
  (importsOf source).foldlM (fun a i => a.add site probe owner? pathsOnly i.toStatement) {}

def patches (a : Survey) : List Patch := a.fixes.map PathFix.patch

def callsForHeader (a : Survey) : Bool := !a.warnings.isEmpty || !a.destructured.isEmpty

end Survey
end Namespacer
