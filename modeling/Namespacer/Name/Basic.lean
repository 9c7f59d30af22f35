import Namespacer.Fault
import Namespacer.Text.Quoted

/-! Names for modules: what counts as a name, the name that a path suggests, and the name that an
answer to the question for one leads to. -/
namespace Namespacer

open Text

def isIdentifierStart (c : Char) : Bool := c.isAlpha || c == '_'

def isIdentifierChar (c : Char) : Bool := c.isAlphanum || c == '_'

def isIdentifier : Text → Bool
  | [] => false
  | c :: t => isIdentifierStart c && t.all isIdentifierChar

namespace ModuleName

/-- The letters above ASCII whose upper-case form has ASCII letters, with those letters. -/
def upperExpansions : List (Char × Text) :=
  [('ß', ['S', 'S']), ('ı', ['I']), ('ŉ', ['N']), ('ſ', ['S']), ('ǰ', ['J']), ('ẖ', ['H']),
   ('ẗ', ['T']), ('ẘ', ['W']), ('ẙ', ['Y']), ('ẚ', ['A']), ('ﬀ', ['F', 'F']), ('ﬁ', ['F', 'I']),
   ('ﬂ', ['F', 'L']), ('ﬃ', ['F', 'F', 'I']), ('ﬄ', ['F', 'F', 'L']), ('ﬅ', ['S', 'T']),
   ('ﬆ', ['S', 'T'])]

def upperAscii (c : Char) : Text :=
  if c.toNat < 128 then [c.toUpper] else (upperExpansions.lookup c).getD []

def isDelimiter (c : Char) : Bool := c == '-' || c == '_' || c == '.'

/-- Drops each delimiter and raises the character after it; a delimiter at the end stays. -/
def raiseWords : Text → Text
  | [] => []
  | [c] => [c]
  | c :: d :: t => if isDelimiter c then upperAscii d ++ raiseWords t else c :: raiseWords (d :: t)

def raised : Text → Text
  | [] => []
  | c :: t => upperAscii c ++ raiseWords t

/-- A file name without its extension, if that is a known one. -/
def stem (name : Text) : Text :=
  (ModulePath.fileEndings.findSome? (before? · name)).getD name

/-- Keeps the characters of an identifier and puts an underscore before a leading digit. -/
def sanitized (t : Text) : Text :=
  match t.filter isIdentifierChar with
  | [] => []
  | c :: t => if c.isDigit then '_' :: c :: t else c :: t

def categorySuffix (category : Text) : Text :=
  if category = ['u', 't', 'i', 'l'] ∨ category = ['u', 't', 'i', 'l', 's'] then
    ['U', 't', 'i', 'l']
  else if category = ['m', 'o', 'd', 'e', 'l'] ∨ category = ['m', 'o', 'd', 'e', 'l', 's'] then
    ['M', 'o', 'd', 'e', 'l']
  else []

/-- The name that a module's path suggests: an identifier, or nothing. -/
def suggest (module : ModulePath) : Text :=
  let segments := (split '/' (dropEndWhile (· == '/') module.text)).reverse
  let base := stem (segments.headD [])
  if base = [] ∨ base = ['.'] then []
  else sanitized (raised base) ++ categorySuffix (segments.tail.headD [])

/-- The name that an answer leads to. An empty answer accepts the suggestion. -/
def settle (answer suggestion : Text) (module : ModulePath) : Except Fault Text :=
  let name := if (trim answer).isEmpty then suggestion else trim answer
  if name.isEmpty then .error (.noName module)
  else if isIdentifier name then .ok name
  else .error (.notIdentifier name)

end ModuleName

structure NameQuestion where
  module : ModulePath
  /-- The specifier as the importing file quotes it. -/
  literal : Text
  symbols : List Text
  suggestion : Text
  deriving DecidableEq

def NameQuestion.wording (r : NameQuestion) : String :=
  let symbols := quotedList r.symbols
  s!"What should we name {r.literal.str}?\n(prefix for {symbols.str})\n[{r.suggestion.str}]"

end Namespacer
