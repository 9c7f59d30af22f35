import Namespacer.Name.Store

/-! The names given to modules: one name to a module and one module to a name, over the whole
project. Each new name is stored at once. -/
namespace Namespacer

structure NameMap where
  names : Table Text
  owners : Table ModulePath
  store : Store

namespace NameMap

/-- Enters modules under their names; no name may occur twice. -/
def ownersOf (owners : Table ModulePath) : List (Text × Text) → Except Fault (Table ModulePath)
  | [] => .ok owners
  | (path, name) :: rest =>
    match owners.find? name with
    | some existing => .error (.nameTaken name existing ⟨path⟩)
    | none => ownersOf (owners.insert name ⟨path⟩) rest

/-- Takes up what is stored. A store that cannot be read counts as empty. -/
def ofStore (store : Store) (disk : Disk) : Except Fault NameMap :=
  let names := match store.load disk with
    | .ok (some names) => names
    | _ => .empty
  match ownersOf .empty names.entries with
  | .ok owners => .ok { names, owners, store }
  | .error f => .error f

def name? (m : NameMap) (path : ModulePath) : Option Text := m.names.find? path.text

def owner? (m : NameMap) (name : Text) : Option ModulePath := m.owners.find? name

/-- Why a name cannot be given to a module that has none. `plain` holds the plain imports seen so
far; one of another module blocks the name. -/
def obstacle? (m : NameMap) (path : ModulePath) (name : Text) (plain : Table ModulePath) :
    Option Fault :=
  match m.owner? name with
  | some existing => some (.nameTaken name existing path)
  | none =>
    match (plain.find? name).filter fun existing => existing.key ≠ path with
    | some existing => some (.plainImportConflict name existing path)
    | none => none

/-- Gives a module its name and stores all names. Nothing changes if that fails. -/
def assign (m : NameMap) (disk : Disk) (path : ModulePath) (name : Text)
    (plain : Table ModulePath) : Except Failure Unit × NameMap × Disk :=
  match m.name? path with
  | some existing =>
    (if existing = name then .ok () else .error (.fault (.alreadyNamed path existing name)),
      m, disk)
  | none =>
    match m.obstacle? path name plain with
    | some f => (.error (.fault f), m, disk)
    | none =>
      let names := m.names.insert path.text name
      match m.store.save names disk with
      | (.error cause, store, disk) => (.error (.persistName path cause), { m with store }, disk)
      | (.ok (), store, disk) =>
        (.ok (), { names, owners := m.owners.insert name path, store }, disk)

end NameMap
end Namespacer
