import Namespacer.Text.Basic

/-! What is left of a text when the codes meant for a terminal are taken out. A code begins with an
escape character. Control characters go too, except those that lay out a text. -/
namespace Namespacer

namespace Terminal

inductive State where
  | ground
  | escape
  | escapeIntermediate
  /-- A control sequence, such as the one for a colour. -/
  | sequence
  /-- A command to the system, which ends at a bell. -/
  | command
  | deviceEntry
  | deviceParameter
  | deviceIntermediate
  /-- A string for the device or an application. -/
  | string
  deriving DecidableEq

def escapeChar : Char := '\x1b'

def cancels (c : Char) : Bool := c == '\x18' || c == '\x1a'

/-- Tabs, line ends and page ends. -/
def laysOut (c : Char) : Bool := c == '\t' || c == '\n' || c == '\x0c' || c == '\r'

def isIntermediate (c : Char) : Bool := ' ' ≤ c && c ≤ '/'

def isParameter (c : Char) : Bool := '0' ≤ c && c ≤ '?'

def isFinal (c : Char) : Bool := '@' ≤ c && c ≤ '~'

/-- Whether the byte 0x9C, which ends a string, occurs in the UTF-8 form of a character. -/
def endsString (c : Char) : Bool :=
  let n := c.toNat
  128 ≤ n && n % 64 == 28 || 0x800 ≤ n && n / 64 % 64 == 28 || 0x10000 ≤ n && n / 4096 % 64 == 28

def State.next (s : State) (c : Char) : State :=
  if c = escapeChar then escape
  else if cancels c then ground
  else match s with
    | ground => ground
    | escape =>
      if isIntermediate c then escapeIntermediate
      else if c = '[' then sequence
      else if c = ']' then command
      else if c = 'P' then deviceEntry
      else if c = 'X' ∨ c = '^' ∨ c = '_' then string
      else if isParameter c || isFinal c then ground
      else s
    | escapeIntermediate => if isParameter c || isFinal c then ground else s
    | sequence => if isFinal c then ground else s
    | command => if c = '\x07' then ground else s
    | deviceEntry =>
      if isIntermediate c then deviceIntermediate
      else if isParameter c then deviceParameter
      else if isFinal c then string
      else s
    | deviceParameter =>
      if isIntermediate c then deviceIntermediate
      else if isFinal c || '<' ≤ c && c ≤ '?' then string
      else s
    | deviceIntermediate => if isParameter c || isFinal c then string else s
    | string => if endsString c then ground else s

/-- Whether a character is kept. Layout counts even inside the shorter codes. -/
def State.keeps (s : State) (c : Char) : Bool :=
  match s with
  | ground => laysOut c || ' ' ≤ c && c != '\x7f'
  | escape | escapeIntermediate | sequence => laysOut c
  | _ => false

/-- Takes out codes. Once a character has been kept, what follows counts as lying outside codes up
to the next character that is not kept; there a code that was broken off goes on. -/
def plainFrom (s : State) (keeping : Bool) : Text → Text
  | [] => []
  | c :: t =>
    if (if keeping then State.ground else s).keeps c then
      c :: plainFrom (if c.toNat < 128 then s else .ground) true t
    else plainFrom (s.next c) false t

def plain (t : Text) : Text := plainFrom .ground false t

end Terminal
end Namespacer
