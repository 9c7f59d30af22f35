import Namespacer.Table

/-! A table of texts as a JSON object. Writing puts one entry on a line, in the order of the keys;
reading takes one character at a time and accepts nothing but an object of strings. -/
namespace Namespacer

namespace MapText

/-! Writing. -/

def hexDigit (n : Nat) : Char := if n < 10 then Char.ofNat (48 + n) else Char.ofNat (87 + n)

def stringChar (c : Char) : Text :=
  if c = '"' then ['\\', '"']
  else if c = '\\' then ['\\', '\\']
  else if c = '\n' then ['\\', 'n']
  else if c = '\r' then ['\\', 'r']
  else if c = '\t' then ['\\', 't']
  else if c = '\x08' then ['\\', 'b']
  else if c = '\x0c' then ['\\', 'f']
  else if c.toNat < 32 then
    ['\\', 'u', '0', '0', hexDigit (c.toNat / 16), hexDigit (c.toNat % 16)]
  else [c]

def string (t : Text) : Text := '"' :: t.flatMap stringChar ++ ['"']

def line (entry : Text × Text) : Text :=
  [' ', ' '] ++ string entry.1 ++ [':', ' '] ++ string entry.2

def render (t : Table Text) : Text :=
  if t.isEmpty then ['{', '}']
  else ['{', '\n'] ++ List.intercalate [',', '\n'] (t.entries.map line) ++ ['\n', '}']

/-! Reading. -/

def hexValue? (c : Char) : Option Nat :=
  if '0' ≤ c ∧ c ≤ '9' then some (c.toNat - 48)
  else if 'a' ≤ c ∧ c ≤ 'f' then some (c.toNat - 87)
  else if 'A' ≤ c ∧ c ≤ 'F' then some (c.toNat - 55)
  else none

inductive Escape where
  | plain
  | backslash
  /-- Inside a code: `left` hexadecimal digits are to come, after the first half of a pair. -/
  | code (left value : Nat) (high : Option Nat)
  | pairBackslash (high : Nat)
  | pairMark (high : Nat)

/-- What a character does inside a string. The part read so far is kept last character first. -/
inductive StringStep where
  | more (read : Text) (escape : Escape)
  | closed

def isHighHalf (n : Nat) : Bool := 0xD800 ≤ n && n < 0xDC00

def isLowHalf (n : Nat) : Bool := 0xDC00 ≤ n && n < 0xE000

def codeStep (read : Text) (value : Nat) : Option Nat → Option StringStep
  | none =>
    if isHighHalf value then some (.more read (.pairBackslash value))
    else if isLowHalf value then none
    else some (.more (Char.ofNat value :: read) .plain)
  | some high =>
    if isLowHalf value then
      let c := Char.ofNat (0x10000 + (high - 0xD800) * 0x400 + (value - 0xDC00))
      some (.more (c :: read) .plain)
    else none

def shortEscape? (c : Char) : Option Char :=
  if c = '"' ∨ c = '\\' ∨ c = '/' then some c
  else if c = 'b' then some '\x08'
  else if c = 'f' then some '\x0c'
  else if c = 'n' then some '\n'
  else if c = 'r' then some '\r'
  else if c = 't' then some '\t'
  else none

def stringStep (read : Text) (c : Char) : Escape → Option StringStep
  | .plain =>
    if c = '"' then some .closed
    else if c = '\\' then some (.more read .backslash)
    else if c.toNat < 32 then none
    else some (.more (c :: read) .plain)
  | .backslash =>
    if c = 'u' then some (.more read (.code 4 0 none))
    else (shortEscape? c).map fun d => .more (d :: read) .plain
  | .code left value high =>
    (hexValue? c).bind fun digit =>
      if left ≤ 1 then codeStep read (value * 16 + digit) high
      else some (.more read (.code (left - 1) (value * 16 + digit) high))
  | .pairBackslash high => if c = '\\' then some (.more read (.pairMark high)) else none
  | .pairMark high => if c = 'u' then some (.more read (.code 4 0 (some high))) else none

inductive Place where
  | start
  /-- A key comes next; the object may end here only if it has no entry yet. -/
  | beforeKey (first : Bool)
  | inKey (read : Text) (escape : Escape)
  | afterKey (key : Text)
  | beforeValue (key : Text)
  | inValue (key read : Text) (escape : Escape)
  | afterValue
  | finished

/-- Where a sign outside strings leads. -/
def Place.next? (place : Place) (c : Char) : Option Place :=
  match place, c with
  | start, '{' => some (beforeKey true)
  | beforeKey true, '}' => some finished
  | beforeKey _, '"' => some (inKey [] .plain)
  | afterKey key, ':' => some (beforeValue key)
  | beforeValue key, '"' => some (inValue key [] .plain)
  | afterValue, ',' => some (beforeKey false)
  | afterValue, '}' => some finished
  | _, _ => none

structure State where
  entries : Table Text := .empty
  place : Place := .start

def isSpace (c : Char) : Bool := c == ' ' || c == '\n' || c == '\r' || c == '\t'

def step (s : State) (c : Char) : Option State :=
  match s.place with
  | .inKey read escape =>
    (stringStep read c escape).map fun
      | .more read escape => { s with place := .inKey read escape }
      | .closed => { s with place := .afterKey read.reverse }
  | .inValue key read escape =>
    (stringStep read c escape).map fun
      | .more read escape => { s with place := .inValue key read escape }
      | .closed => ⟨s.entries.insert key read.reverse, .afterValue⟩
  | place =>
    if isSpace c then some s
    else (place.next? c).map fun place => { s with place }

/-- Of several entries with one key the last counts. -/
def parse? (t : Text) : Option (Table Text) :=
  match t.foldlM step {} with
  | some ⟨entries, .finished⟩ => some entries
  | _ => none

end MapText
end Namespacer
