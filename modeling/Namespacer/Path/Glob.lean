import Namespacer.Text.Basic

/-! Patterns for file names and paths. `?` stands for one character, `*` for any run of characters,
`**` for any number of whole path components, and `[...]` for one character of a class. -/
namespace Namespacer

namespace Glob

inductive Member where
  | one (c : Char)
  | range (low high : Char)
  deriving DecidableEq

def Member.holds (c : Char) : Member → Bool
  | one d => c == d
  | range low high => low ≤ c && c ≤ high

inductive Token where
  | literal (c : Char)
  | anyChar
  | oneOf (negated : Bool) (members : List Member)
  | anyRun
  | anyDepth
  deriving DecidableEq

inductive Problem where
  | wildcards
  | recursiveWildcard
  | range
  deriving DecidableEq

structure SyntaxError where
  /-- Counted in characters. -/
  position : Nat
  problem : Problem
  deriving DecidableEq

def Problem.message : Problem → String
  | wildcards => "wildcards are either regular `*` or recursive `**`"
  | recursiveWildcard => "recursive wildcards must form a single path component"
  | range => "invalid range pattern"

def SyntaxError.message (e : SyntaxError) : String :=
  s!"Pattern syntax error near position {e.position}: {e.problem.message}"

/-- The entries of a class body. A hyphen between two characters makes a range of them. -/
def membersOf : Text → List Member
  | low :: '-' :: high :: t => .range low high :: membersOf t
  | c :: t => .one c :: membersOf t
  | [] => []

/-- The body of a class: at least one character, up to the next closing bracket. -/
def classBody? : Text → Option Text
  | [] => none
  | c :: t => if t.contains ']' then some (c :: t.takeWhile (· != ']')) else none

/-- The token that begins with `c` and goes on in `t`, and how much of `t` it takes up. -/
def tokenAt (before : Option Char) (position : Nat) (c : Char) (t : Text) :
    Except SyntaxError (Token × Nat) :=
  match c, t with
  | '?', _ => .ok (.anyChar, 0)
  | '*', '*' :: '*' :: _ => .error ⟨position + 2, .wildcards⟩
  | '*', '*' :: t =>
    if before.all (· == '/') then
      match t with
      | [] => .ok (.anyDepth, 1)
      | d :: _ => if d == '/' then .ok (.anyDepth, 2) else .error ⟨position + 2, .recursiveWildcard⟩
    else .error ⟨position - 1, .recursiveWildcard⟩
  | '*', _ => .ok (.anyRun, 0)
  | '[', '!' :: t =>
    match classBody? t with
    | some body => .ok (.oneOf true (membersOf body), body.length + 2)
    | none => .error ⟨position, .range⟩
  | '[', t =>
    match classBody? t with
    | some body => .ok (.oneOf false (membersOf body), body.length + 1)
    | none => .error ⟨position, .range⟩
  | c, _ => .ok (.literal c, 0)

/-- The tokens of a pattern from a position on. The first `skip` characters belong to the token
before them. -/
def tokensFrom (before : Option Char) (position skip : Nat) :
    Text → Except SyntaxError (List Token)
  | [] => .ok []
  | c :: t =>
    match skip with
    | skip + 1 => tokensFrom (some c) (position + 1) skip t
    | 0 => do
      let (token, length) ← tokenAt before position c t
      let tokens ← tokensFrom (some c) (position + 1) length t
      .ok (token :: tokens)

/-! Fitting. The answers for all endings of a text are kept in one list, the text itself first
and the empty ending last, so that each token is looked at once for each ending. -/

/-- The endings that begin with a character of a kind and go on with an ending that fits. -/
def afterChar (kind : Char → Bool) : Text → List Bool → List Bool
  | c :: t, _ :: fits => (kind c && fits.headD false) :: afterChar kind t fits
  | _, _ => [false]

/-- The endings of which some ending fits. -/
def afterRun : List Bool → List Bool
  | [] => []
  | b :: fits =>
    let later := afterRun fits
    (b || later.headD false) :: later

/-- The endings of which the part after some slash, or the empty end, fits. -/
def afterSlash : Text → List Bool → List Bool
  | c :: t, _ :: fits =>
    let later := afterSlash t fits
    (c == '/' && fits.headD false || later.headD false) :: later
  | _, fits => fits

/-- The endings that a token fits, given those that the tokens after it fit. -/
def Token.before (t : Text) (token : Token) (fits : List Bool) : List Bool :=
  match token with
  | literal d => afterChar (· == d) t fits
  | anyChar => afterChar (fun _ => true) t fits
  | oneOf negated members => afterChar (fun c => members.any (Member.holds c) != negated) t fits
  | anyRun => afterRun fits
  | anyDepth => List.zipWith (· || ·) fits (afterSlash t fits)

def fitEndings (tokens : List Token) (t : Text) : List Bool :=
  tokens.foldr (Token.before t) (t.map (fun _ => false) ++ [true])

end Glob

structure Glob where
  tokens : List Glob.Token
  deriving DecidableEq

def Glob.parse (pattern : Text) : Except Glob.SyntaxError Glob :=
  (Glob.tokensFrom none 0 0 pattern).map Glob.mk

def Glob.fits (g : Glob) (t : Text) : Bool := (fitEndings g.tokens t).headD false

end Namespacer
