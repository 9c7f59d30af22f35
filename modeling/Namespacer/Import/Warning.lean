import Namespacer.Import.Destructuring
import Namespacer.Table

/-! What a file's imports leave to complain about without stopping the work, filed under the path
that each complaint is about. -/
namespace Namespacer

open Text

inductive Warning where
  | missing (path : ModulePath)
  | ambiguous (path : ModulePath)
  /-- Another destructuring of a module, unlike the first. -/
  | redeclaredList (keyword : Text) (record : Destructuring)
  /-- A plain import of another module under a name in use. -/
  | redeclaredName (keyword name specifier : Text)
  /-- A destructuring with an entry that is no plain name. -/
  | unsupported (keyword binding literal entry : Text)
  | note (message : Text)
  deriving DecidableEq

def Warning.message : Warning → String
  | missing path => s!"missing require: {path.str}: neither file nor directory"
  | ambiguous path => s!"ambiguous require: {path.str}: is both file and directory"
  | redeclaredList keyword record =>
    let symbols := join ',' record.symbols
    s!"confusing redeclaration: {keyword.str} \x7b {symbols.str} \x7d = {record.literal.str}"
  | redeclaredName keyword name specifier =>
    s!"confusing redeclaration: {keyword.str} {name.str} = {specifier.str}"
  | unsupported keyword binding literal entry =>
    let binding := join ' ' (words binding)
    s!"unsupported destructuring: {keyword.str} {binding.str} = {literal.str} (near '{entry.str}')"
  | note message => message.str

/-- Warnings by key, those of one key in the order they came. -/
structure Warnings where
  byKey : Table (List Warning) := .empty
  deriving DecidableEq

namespace Warnings

def push (w : Warnings) (key : Text) (warning : Warning) : Warnings :=
  ⟨w.byKey.insert key ((w.byKey.find? key).getD [] ++ [warning])⟩

def find? (w : Warnings) (key : Text) : Option (List Warning) := w.byKey.find? key

def toList (w : Warnings) : List (Text × Warning) :=
  w.byKey.entries.flatMap fun e => e.2.map fun warning => (e.1, warning)

def size (w : Warnings) : Nat := w.toList.length

def isEmpty (w : Warnings) : Bool := w.byKey.isEmpty

end Warnings
end Namespacer
