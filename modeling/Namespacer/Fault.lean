import Namespacer.Path.Module

/-! The ways in which naming modules or collapsing an import is refused. -/
namespace Namespacer

inductive Fault where
  | nameInText (name file : Text)
  /-- The name belongs to another module. -/
  | nameTaken (name : Text) (existing requested : ModulePath)
  | alreadyNamed (path : ModulePath) (existing requested : Text)
  /-- A plain import uses the name for another module. -/
  | plainImportConflict (name : Text) (existing requested : ModulePath)
  /-- A plain import uses a name that was given to another module. -/
  | importTakesName (name : Text) (module : ModulePath)
  | notIdentifier (name : Text)
  | noName (module : ModulePath)
  deriving DecidableEq

def Fault.message : Fault → String
  | nameInText name file => s!"found {name.str} already in {file.str}"
  | nameTaken name existing requested =>
    s!"duplicate name {name.str}: requested for {requested.str}, already used by {existing.str}"
  | alreadyNamed path existing requested =>
    s!"{path.str} is already named {existing.str}, refusing to rename it to {requested.str}"
  | plainImportConflict name existing requested =>
    s!"name {name.str} for {requested.str} is already a plain import of {existing.str}"
  | importTakesName name module => s!"duplicate import name: {name.str}: {module.str}"
  | notIdentifier name => s!"'{name.str}' is not a valid identifier"
  | noName module => s!"no name given for {module.str} and no suggestion available"

end Namespacer
