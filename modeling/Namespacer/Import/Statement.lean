import Namespacer.Text.Basic

/-! One import statement: a keyword, a bound name or a braced list of names, and the quoted
specifier of the module it requires. Reading takes a statement off the front of a text. -/
namespace Namespacer

open Text

inductive Keyword where
  | constKw
  | letKw
  | varKw
  deriving DecidableEq, Repr

namespace Keyword

def text : Keyword → Text
  | constKw => ['c', 'o', 'n', 's', 't']
  | letKw => ['l', 'e', 't']
  | varKw => ['v', 'a', 'r']

def all : List Keyword := [constKw, letKw, varKw]

def read? (t : Text) : Option (Keyword × Text) :=
  all.findSome? fun k => (after? k.text t).map fun rest => (k, rest)

end Keyword

inductive Quote where
  | single
  | double
  | back
  deriving DecidableEq, Repr

namespace Quote

def char : Quote → Char
  | single => '\''
  | double => '"'
  | back => '`'

def ofChar? (c : Char) : Option Quote :=
  if c = '\'' then some single
  else if c = '"' then some double
  else if c = '`' then some back
  else none

theorem ofChar?_eq_some_iff {c : Char} {q : Quote} : ofChar? c = some q ↔ c = q.char := by
  unfold ofChar?
  cases q <;> repeat' split <;> simp_all [char]

def wrap (q : Quote) (body : Text) : Text := q.char :: body ++ [q.char]

/-- Reads a quoted text that is not empty and does not leave its line. -/
def read? : Text → Option (Quote × Text × Text)
  | [] => none
  | c :: t =>
    match ofChar? c with
    | none => none
    | some q =>
      let stops := fun d => d == c || d == '\n'
      match t.takeWhile (!stops ·), t.dropWhile (!stops ·) with
      | d :: body, e :: rest => if e = c then some (q, d :: body, rest) else none
      | _, _ => none

end Quote

/-- Characters of a plain bound name. -/
def isNameChar (c : Char) : Bool := c.isAlphanum || c == '_' || c == '$'

inductive Binding where
  | name (id : Text)
  /-- A list such as `{ a, b }`, given as what stands between the braces. -/
  | braces (inner : Text)
  deriving DecidableEq, Repr

namespace Binding

def text : Binding → Text
  | name id => id
  | braces inner => '{' :: inner ++ ['}']

/-- The entries of a braced list: what commas and white space leave of it. -/
def symbolsOf (inner : Text) : List Text := runs (fun c => c == ',' || isBlank c) inner

def read? : Text → Option (Binding × Text)
  | '{' :: t =>
    match t.takeWhile (· != '}'), t.dropWhile (· != '}') with
    | c :: inner, _ :: rest => some (braces (c :: inner), rest)
    | _, _ => none
  | t =>
    match t.takeWhile isNameChar with
    | [] => none
    | c :: id => some (name (c :: id), t.dropWhile isNameChar)

end Binding

structure Statement where
  keyword : Keyword
  binding : Binding
  quote : Quote
  specifier : Text
  deriving DecidableEq, Repr

namespace Statement

def literal (s : Statement) : Text := s.quote.wrap s.specifier

def requireWord : Text := ['r', 'e', 'q', 'u', 'i', 'r', 'e']

def skipBlank (t : Text) : Text := t.dropWhile isBlank

def skipBlank1? : Text → Option Text
  | [] => none
  | c :: t => if isBlank c then some (skipBlank t) else none

/-- Reads `keyword binding = require('specifier')` off the front of a text. White space may stand
between any two parts and must follow the keyword. -/
def read? (t : Text) : Option (Statement × Text) := do
  let (keyword, t) ← Keyword.read? t
  let t ← skipBlank1? t
  let (binding, t) ← Binding.read? t
  let t ← after? ['='] (skipBlank t)
  let t ← after? requireWord (skipBlank t)
  let t ← after? ['('] (skipBlank t)
  let (quote, specifier, t) ← Quote.read? (skipBlank t)
  let t ← after? [')'] (skipBlank t)
  some (⟨keyword, binding, quote, specifier⟩, t)

end Statement
end Namespacer
