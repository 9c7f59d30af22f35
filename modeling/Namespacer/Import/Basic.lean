import Namespacer.Import.Statement

/-! The import statements of a source text, each with its place. A statement begins where a word
begins, and the search goes on behind its end. -/
namespace Namespacer

structure Import extends Statement where
  start : Nat
  stop : Nat
  deriving DecidableEq, Repr

namespace Import

def startsWord (before : Option Char) (c : Char) : Bool :=
  c.isAlpha && !before.any isNameChar

/-- The statement that begins at the front of a text after `before`, with the rest. -/
def at? (before : Option Char) : Text → Option (Statement × Text)
  | [] => none
  | c :: t => if startsWord before c then Statement.read? (c :: t) else none

/-- The imports of a text that stands after `before` at a byte offset; its first `skip` characters
belong to a statement found already. -/
def scan (before : Option Char) (offset skip : Nat) : Text → List Import
  | [] => []
  | c :: t =>
    match skip with
    | skip + 1 => scan (some c) (offset + c.utf8Size) skip t
    | 0 =>
      match at? before (c :: t) with
      | none => scan (some c) (offset + c.utf8Size) 0 t
      | some (statement, rest) =>
        let written := (c :: t).take ((c :: t).length - rest.length)
        { statement with start := offset, stop := offset + Text.size written } ::
          scan (some c) (offset + c.utf8Size) (written.length - 1) t

end Import

def importsOf (source : Text) : List Import := Import.scan none 0 0 source

end Namespacer
