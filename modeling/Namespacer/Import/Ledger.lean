import Namespacer.Import.Warning

/-! The imports of one file by what they bind. The first import of a kind is kept; a later one
that says something else is reported and dropped. -/
namespace Namespacer

structure Ledger where
  /-- The destructuring import of each module, in order of first appearance. -/
  destructured : List (ModulePath × Destructuring) := []
  /-- The module that each plainly imported name stands for. -/
  plain : Table ModulePath := .empty
  warnings : Warnings := {}
  deriving DecidableEq

namespace Ledger

def warn (r : Ledger) (key : Text) (warning : Warning) : Ledger :=
  { r with warnings := r.warnings.push key warning }

def destructured? (r : Ledger) (path : ModulePath) : Option Destructuring :=
  (r.destructured.find? fun e => e.1 = path).map Prod.snd

/-- Files a destructuring import, and tells whether it is the first of its module. -/
def enterDestructured (r : Ledger) (path : ModulePath) (d : Destructuring) (keyword : Text) :
    Bool × Ledger :=
  match r.destructured? path with
  | none => (true, { r with destructured := r.destructured ++ [(path, d)] })
  | some first =>
    (false, if first = d then r else r.warn path.text (.redeclaredList keyword d))

/-- Files a plain import, and tells whether it is the first of its name. -/
def enterPlain (r : Ledger) (name : Text) (path : ModulePath) (keyword specifier : Text) :
    Bool × Ledger :=
  match r.plain.find? name with
  | none => (true, { r with plain := r.plain.insert name path })
  | some first =>
    (false, if first = path then r else r.warn path.text (.redeclaredName keyword name specifier))

end Ledger
end Namespacer
