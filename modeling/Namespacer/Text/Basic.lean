/-! Text as a list of characters. Sizes and offsets count UTF-8 bytes. Text is ordered by code
point, which is also the order of its UTF-8 bytes. -/
namespace Namespacer

abbrev Text := List Char

namespace Text

def str (t : Text) : String := String.ofList t

def size : Text → Nat
  | [] => 0
  | c :: t => c.utf8Size + size t

@[simp] theorem size_nil : size [] = 0 := rfl

@[simp] theorem size_cons (c : Char) (t : Text) : size (c :: t) = c.utf8Size + size t := rfl

@[simp] theorem size_append (s t : Text) : size (s ++ t) = size s + size t := by
  induction s with
  | nil => simp
  | cons c s ih => simp [ih, Nat.add_assoc]

/-- What follows `start` in a text that begins with it. -/
def after? : (start t : Text) → Option Text
  | [], t => some t
  | _ :: _, [] => none
  | a :: start, c :: t => if a = c then after? start t else none

theorem after?_eq_some_iff {start t rest : Text} :
    after? start t = some rest ↔ t = start ++ rest := by
  induction start generalizing t with
  | nil => simp [after?]
  | cons a start ih =>
    cases t with
    | nil => simp [after?]
    | cons c t =>
      by_cases h : a = c
      · simp [after?, h, ih]
      · simp [after?, h, Ne.symm h]

/-- What precedes `ending` in a text that ends with it. -/
def before? (ending t : Text) : Option Text :=
  (after? ending.reverse t.reverse).map List.reverse

theorem before?_eq_some_iff {ending t rest : Text} :
    before? ending t = some rest ↔ t = rest ++ ending := by
  simp only [before?, Option.map_eq_some_iff, after?_eq_some_iff]
  constructor
  · rintro ⟨r, h, rfl⟩
    simpa using congrArg List.reverse h
  · rintro rfl
    exact ⟨rest.reverse, by simp, by simp⟩

def startsWith (t start : Text) : Bool := (after? start t).isSome

def endsWith (t ending : Text) : Bool := (before? ending t).isSome

/-- Cuts a text at every character that `sep` holds of. There is always one piece more than there
are cuts, and a piece may be empty. -/
def splitBy (sep : Char → Bool) : Text → List Text
  | [] => [[]]
  | c :: t =>
    if sep c then [] :: splitBy sep t
    else match splitBy sep t with
      | [] => [[c]]
      | piece :: pieces => (c :: piece) :: pieces

def split (sep : Char) (t : Text) : List Text := splitBy (· == sep) t

def join (sep : Char) (pieces : List Text) : Text := List.intercalate [sep] pieces

/-- The maximal runs of characters that `sep` does not hold of. -/
def runs (sep : Char → Bool) (t : Text) : List Text :=
  (splitBy sep t).filter fun piece => !piece.isEmpty

def dropEndWhile (p : Char → Bool) (t : Text) : Text := (t.reverse.dropWhile p).reverse

def inRanges (ranges : List (Nat × Nat)) (n : Nat) : Bool :=
  ranges.any fun r => r.1 ≤ n && n ≤ r.2

/-- The 25 characters that count as white space. -/
def blankRanges : List (Nat × Nat) :=
  [(9, 13), (32, 32), (133, 133), (160, 160), (5760, 5760), (8192, 8202), (8232, 8233),
   (8239, 8239), (8287, 8287), (12288, 12288)]

def isBlank (c : Char) : Bool := inRanges blankRanges c.toNat

def words (t : Text) : List Text := runs isBlank t

def trim (t : Text) : Text := dropEndWhile isBlank (t.dropWhile isBlank)

/-- Replaces occurrences of a pattern, found from left to right without overlap. The first `skip`
characters belong to an occurrence that is replaced already. -/
def replaceFrom (pattern replacement : Text) (skip : Nat) : Text → Text
  | [] => []
  | c :: t =>
    match skip with
    | skip + 1 => replaceFrom pattern replacement skip t
    | 0 =>
      if startsWith (c :: t) pattern then
        replacement ++ replaceFrom pattern replacement (pattern.length - 1) t
      else c :: replaceFrom pattern replacement 0 t

/-- Replaces every occurrence of a pattern. The empty pattern occurs before every character and at
the end. -/
def replaceAll (pattern replacement t : Text) : Text :=
  if pattern.isEmpty then t.foldr (fun c out => replacement ++ c :: out) replacement
  else replaceFrom pattern replacement 0 t

end Text
end Namespacer
