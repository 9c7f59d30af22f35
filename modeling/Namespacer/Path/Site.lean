import Namespacer.Path.Module

/-! Where an import stands decides what its specifier means: `./` and `../` start at the importing
file's directory, `$/` at the project root, and any other specifier names a package. -/
namespace Namespacer

open Text

/-- The project root and the importing file, whose path is relative to that root. -/
structure Site where
  root : Text
  file : Text

/-- Follows `.` and `..` segments; the segments gone down so far are on `down`, the last one first.
There is no result above the root. -/
def resolveFrom (down : List Text) : List Text → Option (List Text)
  | [] => some down.reverse
  | segment :: rest =>
    if segment = [] ∨ segment = ['.'] then resolveFrom down rest
    else if segment = ['.', '.'] then
      match down with
      | [] => none
      | _ :: up => resolveFrom up rest
    else resolveFrom (segment :: down) rest

def resolveSegments (segments : List Text) : Option (List Text) := resolveFrom [] segments

namespace Site

/-- The directory of the importing file, empty at the root. -/
def dir (site : Site) : Text := ((site.file.reverse.dropWhile (· != '/')).drop 1).reverse

def spelled? (site : Site) (specifier : Text) : Option Text :=
  if startsWith specifier ['.', '/'] || startsWith specifier ['.', '.', '/'] then
    some (if site.dir.isEmpty then specifier else site.dir ++ '/' :: specifier)
  else after? ['$', '/'] specifier

/-- The segments from the root to the target of a local specifier. -/
def target? (site : Site) (specifier : Text) : Option (List Text) :=
  (site.spelled? specifier).bind fun path => resolveSegments (split '/' path)

/-- The module that a specifier means. A final slash survives; a package specifier and one that
climbs above the root stay as they are. -/
def resolve (site : Site) (specifier : Text) : ModulePath :=
  match site.target? specifier with
  | none => ⟨specifier⟩
  | some segments =>
    let slash := if endsWith specifier ['/'] && !segments.isEmpty then ['/'] else []
    ⟨ModulePath.localMarker ++ join '/' segments ++ slash⟩

end Site
end Namespacer
