import Namespacer.Fault
import Namespacer.Text.Word

/-! Turning a destructuring import into the binding of one name. The braces give way to the name,
and every bare use of a symbol that they bound is qualified by it. -/
namespace Namespacer

open Text

structure Destructuring where
  literal : Text
  binding : Text
  symbols : List Text
  deriving DecidableEq

/-- A bare use stands at the start of the text or after one of these. -/
def opensUse (c : Char) : Bool := isBlank c || c == '(' || c == '['

/-- Whether `t`, standing after `before`, begins with the whole symbol. -/
def startsUse (symbol : Text) (before : Option Char) (t : Text) : Bool :=
  match after? symbol t with
  | none => false
  | some rest => boundary (symbol.getLast?.or before) rest.head?

/-- Qualifies the bare uses of one symbol, found from left to right. The next `copy` characters
belong to a use that is qualified already. -/
def qualifyFrom (name symbol : Text) (copy : Nat) : Text → Text
  | [] => []
  | c :: t =>
    match copy with
    | copy + 1 => c :: qualifyFrom name symbol copy t
    | 0 =>
      if opensUse c && startsUse symbol (some c) t then
        c :: (name ++ '.' :: qualifyFrom name symbol symbol.length t)
      else c :: qualifyFrom name symbol 0 t

def qualify (name symbol t : Text) : Text :=
  if startsUse symbol none t then name ++ '.' :: qualifyFrom name symbol symbol.length t
  else qualifyFrom name symbol 0 t

/-- Binds `name` in place of the braces and qualifies the symbols by it, one after another. The
name must not stand in the text before. -/
def Destructuring.collapse (d : Destructuring) (file name t : Text) : Except Fault Text :=
  if hasWord name t then .error (.nameInText name file)
  else .ok (d.symbols.foldl (fun t symbol => qualify name symbol t)
    (replaceAll d.binding name t))

end Namespacer
