import Namespacer.Failure
import Namespacer.Name.MapText

/-! Where the names of modules are kept between runs. -/
namespace Namespacer

open Text

inductive Store where
  /-- Kept in memory, with a count of the saves. -/
  | memory (entries : Table Text) (saves : Nat)
  /-- A file on disk, replaced as a whole. -/
  | file (path : Text)
  /-- A store that keeps nothing and whose saves come out as foreseen, until it is full. -/
  | rehearsed (loads : Bool) (saves : List Bool)

namespace Store

def load (store : Store) (disk : Disk) : Except Failure (Option (Table Text)) :=
  match store with
  | memory entries _ => .ok (some entries)
  | rehearsed loads _ => if loads then .ok none else .error .loadRefused
  | file path =>
    if disk.present path then
      match disk.read path with
      | .error e => .error (.read path (.system e))
      | .ok (.binary _) => .error (.read path .notUtf8)
      | .ok (.text t) =>
        match MapText.parse? t with
        | none => .error (.parse path)
        | some entries => .ok (some entries)
    else .ok none

def temporaryName : Text := ['.', 't', 'm', 'p', 'X', 'X', 'X', 'X', 'X', 'X']

/-- Writes a file by way of a temporary one beside it. -/
def replaceFile (disk : Disk) (path t : Text) : Except Failure Disk :=
  let dir := match PathText.parent? path with
    | none => ['.']
    | some [] => ['.']
    | some dir => dir
  let full := PathText.join (PathText.join disk.cwdText dir) temporaryName
  match disk.checkNew full with
  | .error e => .error (.temporary dir full e)
  | .ok () =>
    match disk.moveInto path t with
    | .error e => .error (.replace path e)
    | .ok disk => .ok disk

def save (store : Store) (entries : Table Text) (disk : Disk) :
    Except Failure Unit × Store × Disk :=
  match store with
  | memory _ saves => (.ok (), memory entries (saves + 1), disk)
  | file path =>
    match replaceFile disk path (MapText.render entries ++ ['\n']) with
    | .ok disk => (.ok (), store, disk)
    | .error e => (.error e, store, disk)
  | rehearsed loads (true :: saves) => (.ok (), rehearsed loads saves, disk)
  | rehearsed loads (false :: saves) => (.error .diskFull, rehearsed loads saves, disk)
  | rehearsed _ [] => (.error .diskFull, store, disk)

def saveCount? : Store → Option Nat
  | memory _ saves => some saves
  | _ => none

def path? : Store → Option Text
  | file path => some path
  | _ => none

end Store
end Namespacer
