import Namespacer.Text.Basic

/-! Literal substitutions on a whole text. -/
namespace Namespacer

structure Patch where
  pattern : Text
  replacement : Text
  deriving DecidableEq

namespace Patch

def apply (p : Patch) (t : Text) : Text := Text.replaceAll p.pattern p.replacement t

/-- Applies patches in order, each to what the ones before it have left. -/
def applyAll (patches : List Patch) (t : Text) : Text := patches.foldl (fun t p => p.apply t) t

end Patch
end Namespacer
