import Namespacer.Proofs.Import.Grammar

/-! The import statements of a text as a relation: a text is scanned character by character, and
where a statement begins it is taken as a whole. The byte range of an import covers exactly the
text that the statement is written as. -/
namespace Namespacer

open Text

namespace Text

def dropBytes : Nat → Text → Text
  | 0, t => t
  | _ + 1, [] => []
  | n + 1, c :: t => dropBytes (n + 1 - c.utf8Size) t

def takeBytes : Nat → Text → Text
  | 0, _ => []
  | _ + 1, [] => []
  | n + 1, c :: t => c :: takeBytes (n + 1 - c.utf8Size) t

theorem getLast?_cons_or (c : Char) (t : Text) (before : Option Char) :
    (c :: t).getLast?.or before = t.getLast?.or (some c) := by
  rw [List.getLast?_cons]
  cases t.getLast? <;> rfl

theorem dropBytes_size_append (s t : Text) : dropBytes (size s) (s ++ t) = t := by
  induction s with
  | nil => simp [dropBytes]
  | cons c s ih =>
    obtain ⟨n, hn⟩ := Nat.exists_eq_add_of_lt c.utf8Size_pos
    have hsize : size (c :: s) = (n + size s) + 1 := by rw [size_cons]; omega
    rw [hsize, List.cons_append, dropBytes, ← hsize, size_cons, Nat.add_sub_cancel_left, ih]

theorem takeBytes_size_append (s t : Text) : takeBytes (size s) (s ++ t) = s := by
  induction s with
  | nil => simp [takeBytes]
  | cons c s ih =>
    obtain ⟨n, hn⟩ := Nat.exists_eq_add_of_lt c.utf8Size_pos
    have hsize : size (c :: s) = (n + size s) + 1 := by rw [size_cons]; omega
    rw [hsize, List.cons_append, takeBytes, ← hsize, size_cons, Nat.add_sub_cancel_left, ih]

end Text

namespace Statement

def isWhole (t : Text) : Bool := (read? t).any fun r => r.2.isEmpty

theorem Written.read? {s : Statement} {w : Text} (h : s.Written w) :
    Statement.read? w = some (s, []) :=
  read?_eq_some_iff.mpr ⟨w, h, by simp⟩

theorem isWhole_iff {t : Text} : isWhole t = true ↔ ∃ s : Statement, s.Written t := by
  constructor
  · intro h
    obtain ⟨⟨s, rest⟩, hread, hrest⟩ := (Option.any_eq_true _ _).mp h
    obtain ⟨w, hw, rfl⟩ := read?_eq_some_iff.mp hread
    have hnil : rest = [] := by simpa using hrest
    subst hnil
    exact ⟨s, by simpa using hw⟩
  · rintro ⟨s, hs⟩
    simp [isWhole, hs.read?]

theorem Written.unique {s s' : Statement} {w : Text} (h : s.Written w) (h' : s'.Written w) :
    s = s' := by
  have heq := h.read?.symm.trans h'.read?
  cases heq
  rfl

theorem Written.eq_of_append {s s' : Statement} {w w' rest rest' : Text} (h : s.Written w)
    (h' : s'.Written w') (heq : w ++ rest = w' ++ rest') : w = w' := by
  have hread : Statement.read? (w ++ rest) = some (s, rest) := read?_eq_some_iff.mpr ⟨w, h, rfl⟩
  have hread' : Statement.read? (w ++ rest) = some (s', rest') :=
    read?_eq_some_iff.mpr ⟨w', h', heq⟩
  rw [hread] at hread'
  cases hread'
  exact List.append_cancel_right heq

theorem Written.exists_eq_cons {s : Statement} {w : Text} (h : s.Written w) :
    ∃ c w', w = c :: w' ∧ c.isAlpha = true := by
  cases h with
  | @intro keyword =>
    cases keyword <;> exact ⟨_, _, rfl, rfl⟩

theorem Written.exists_eq_append {s : Statement} {w : Text} (h : s.Written w) :
    ∃ w', w = w' ++ [')'] := by
  cases h with
  | intro => exact ⟨_, by simp only [← List.append_assoc]; rfl⟩

end Statement

namespace Import

theorem at?_eq_some_iff {before : Option Char} {t rest : Text} {s : Statement} :
    at? before t = some (s, rest) ↔
      before.any isNameChar = false ∧ ∃ w, s.Written w ∧ t = w ++ rest := by
  constructor
  · intro h
    cases t with
    | nil => simp [at?] at h
    | cons c t =>
      rw [at?] at h
      split at h
      · next hstart =>
        refine ⟨?_, Statement.read?_eq_some_iff.mp h⟩
        simpa [startsWord] using (Bool.and_eq_true_iff.mp hstart).2
      · contradiction
  · rintro ⟨hbefore, w, hw, rfl⟩
    obtain ⟨c, w', rfl, hc⟩ := hw.exists_eq_cons
    rw [List.cons_append, at?, if_pos (by simp [startsWord, hc, hbefore])]
    exact Statement.read?_eq_some_iff.mpr ⟨c :: w', hw, rfl⟩

theorem at?_of_isNameChar {before : Option Char} (h : before.any isNameChar = true) (t : Text) :
    at? before t = none := by
  cases t with
  | nil => rfl
  | cons c t => simp [at?, startsWord, h]

theorem scan_skip (before : Option Char) (offset : Nat) (s t : Text) :
    scan before offset s.length (s ++ t) =
      scan (s.getLast?.or before) (offset + size s) 0 t := by
  induction s generalizing before offset with
  | nil => simp
  | cons c s ih =>
    rw [List.length_cons, List.cons_append, scan, ih, size_cons, Nat.add_assoc, getLast?_cons_or]

theorem scan_of_at?_eq_none {before : Option Char} {offset : Nat} {c : Char} {t : Text}
    (h : at? before (c :: t) = none) :
    scan before offset 0 (c :: t) = scan (some c) (offset + c.utf8Size) 0 t := by
  rw [scan, h]

theorem scan_of_at?_eq_some {before : Option Char} {offset : Nat} {s : Statement} {w t : Text}
    (h : at? before (w ++ t) = some (s, t)) (hw : s.Written w) :
    scan before offset 0 (w ++ t) =
      { s with start := offset, stop := offset + size w } ::
        scan (some ')') (offset + size w) 0 t := by
  obtain ⟨c, w', rfl, -⟩ := hw.exists_eq_cons
  have htake : (c :: (w' ++ t)).take ((c :: (w' ++ t)).length - t.length) = c :: w' := by
    rw [← List.cons_append, List.length_append, Nat.add_sub_cancel, List.take_left]
  have hlast : w'.getLast?.or (some c) = some ')' := by
    obtain ⟨v, hv⟩ := hw.exists_eq_append
    rw [← getLast?_cons_or c w' none, hv]
    simp
  rw [List.cons_append] at h ⊢
  rw [scan, h]
  dsimp only
  rw [htake, List.length_cons, Nat.add_sub_cancel, scan_skip, hlast, size_cons, Nat.add_assoc]

/-- The text of an import, as it stands in the source. -/
def textIn (i : Import) (source : Text) : Text :=
  takeBytes (i.stop - i.start) (dropBytes i.start source)

end Import

def importTexts (source : Text) : List Text := (importsOf source).map (·.textIn source)

/-- The texts of the imports in a text that stands after `before`. -/
inductive Scans : Option Char → Text → List Text → Prop where
  | nil {before : Option Char} : Scans before [] []
  | skip {before : Option Char} {c : Char} {t : Text} {ws : List Text}
      (h : Import.at? before (c :: t) = none) (hrest : Scans (some c) t ws) :
      Scans before (c :: t) ws
  | found {before : Option Char} {s : Statement} {w t : Text} {ws : List Text}
      (hw : s.Written w) (hbefore : before.any isNameChar = false)
      (hrest : Scans (some ')') t ws) : Scans before (w ++ t) (w :: ws)

namespace Scans

theorem exists_scans (before : Option Char) (t : Text) : ∃ ws, Scans before t ws := by
  induction hn : t.length using Nat.strongRecOn generalizing before t with
  | _ n ih =>
    cases hat : Import.at? before t with
    | none =>
      cases t with
      | nil => exact ⟨[], .nil⟩
      | cons c t =>
        obtain ⟨ws, hws⟩ := ih t.length (by simp [← hn]) (some c) t rfl
        exact ⟨ws, .skip hat hws⟩
    | some r =>
      obtain ⟨s, rest⟩ := r
      obtain ⟨hbefore, w, hw, rfl⟩ := Import.at?_eq_some_iff.mp hat
      obtain ⟨c, w', rfl, -⟩ := hw.exists_eq_cons
      have hlen : rest.length < n := by
        rw [← hn, List.length_append, List.length_cons]
        omega
      obtain ⟨ws, hws⟩ := ih rest.length hlen (some ')') rest rfl
      exact ⟨_, .found hw hbefore hws⟩

/-- The relation lists the imports that scanning finds behind a text `x`. -/
theorem scan_eq {before : Option Char} {t : Text} {ws : List Text} (h : Scans before t ws)
    (x : Text) :
    (Import.scan before (size x) 0 t).map (·.textIn (x ++ t)) = ws ∧
      ∀ i ∈ Import.scan before (size x) 0 t, i.toStatement.Written (i.textIn (x ++ t)) := by
  induction h generalizing x with
  | nil => simp [Import.scan]
  | @skip before c t ws hat _ ih =>
    have hx := ih (x ++ [c])
    rw [Import.scan_of_at?_eq_none hat]
    simpa using hx
  | @found before s w t ws hw hbefore _ ih =>
    have hx := ih (x ++ w)
    have hat : Import.at? before (w ++ t) = some (s, t) :=
      Import.at?_eq_some_iff.mpr ⟨hbefore, w, hw, rfl⟩
    have htext : takeBytes (size w) (dropBytes (size x) (x ++ (w ++ t))) = w := by
      rw [dropBytes_size_append, takeBytes_size_append]
    rw [Import.scan_of_at?_eq_some hat hw]
    simp only [size_append, List.append_assoc] at hx
    simp only [List.map_cons, List.mem_cons, forall_eq_or_imp, Import.textIn,
      Nat.add_sub_cancel_left, htext]
    exact ⟨congrArg _ hx.1, hw, hx.2⟩

theorem unique {before : Option Char} {t : Text} {ws ws' : List Text} (h : Scans before t ws)
    (h' : Scans before t ws') : ws = ws' := (h.scan_eq []).1.symm.trans (h'.scan_eq []).1

theorem importTexts_eq {t : Text} {ws : List Text} (h : Scans none t ws) :
    importTexts t = ws := (h.scan_eq []).1

theorem infix_of_mem {before : Option Char} {t w : Text} {ws : List Text}
    (h : Scans before t ws) (hw : w ∈ ws) : w <:+: t := by
  induction h with
  | nil => simp at hw
  | skip _ _ ih => exact (ih hw).trans (List.suffix_cons _ _).isInfix
  | found _ _ _ ih =>
    rcases List.mem_cons.mp hw with rfl | hw
    · exact (List.prefix_append _ _).isInfix
    · exact (ih hw).trans (List.suffix_append _ _).isInfix

end Scans

theorem scans_importTexts (t : Text) : Scans none t (importTexts t) := by
  obtain ⟨ws, hws⟩ := Scans.exists_scans none t
  rw [hws.importTexts_eq]
  exact hws

theorem written_textIn {t : Text} {i : Import} (h : i ∈ importsOf t) :
    i.toStatement.Written (i.textIn t) :=
  ((scans_importTexts t).scan_eq []).2 i h

theorem importTexts_eq_append (t : Text) (n : Nat) :
    importTexts t = ((importsOf t).take n).map (·.textIn t) ++ (importTexts t).drop n := by
  rw [List.map_take]
  exact (List.take_append_drop n _).symm

/-! Statements that begin anywhere in a text, also inside one another. -/

/-- The text of the statement that begins at the front of a text, if one does. -/
def firstText (before : Option Char) (t : Text) : List Text :=
  match Import.at? before t with
  | none => []
  | some (_, rest) => [t.take (t.length - rest.length)]

/-- The texts of all statements that begin in a text that stands after `before`. -/
def statementTexts (before : Option Char) : Text → List Text
  | [] => []
  | c :: t => firstText before (c :: t) ++ statementTexts (some c) t

/-- Whether no statement begins inside another one: behind the first character of a statement
begin only those that begin behind its end. -/
def isFlat (before : Option Char) : Text → Bool
  | [] => true
  | c :: t =>
    (Import.at? before (c :: t)).all
        (fun r => statementTexts (some c) t == statementTexts (some ')') r.2) &&
      isFlat (some c) t

theorem firstText_of_at?_eq_none {before : Option Char} {t : Text}
    (h : Import.at? before t = none) : firstText before t = [] := by
  rw [firstText, h]

theorem at?_eq_none_of_firstText {before : Option Char} {t : Text}
    (h : firstText before t = []) : Import.at? before t = none := by
  rw [firstText] at h
  split at h
  · assumption
  · contradiction

theorem firstText_of_written {before : Option Char} {s : Statement} {w : Text}
    (hbefore : before.any isNameChar = false) (hw : s.Written w) (rest : Text) :
    firstText before (w ++ rest) = [w] := by
  have hat : Import.at? before (w ++ rest) = some (s, rest) :=
    Import.at?_eq_some_iff.mpr ⟨hbefore, w, hw, rfl⟩
  rw [firstText, hat]
  simp

theorem statementTexts_cons {before : Option Char} {c : Char} {t : Text}
    (h : Import.at? before (c :: t) = none) :
    statementTexts before (c :: t) = statementTexts (some c) t := by
  rw [statementTexts, firstText_of_at?_eq_none h, List.nil_append]

theorem isWhole_of_mem_statementTexts {before : Option Char} {t w : Text}
    (h : w ∈ statementTexts before t) : Statement.isWhole w = true := by
  induction t generalizing before with
  | nil => simp [statementTexts] at h
  | cons c t ih =>
    rcases List.mem_append.mp h with h | h
    · cases hat : Import.at? before (c :: t) with
      | none => simp [firstText_of_at?_eq_none hat] at h
      | some r =>
        obtain ⟨s, rest⟩ := r
        obtain ⟨hbefore, v, hv, hcut⟩ := Import.at?_eq_some_iff.mp hat
        rw [hcut, firstText_of_written hbefore hv, List.mem_singleton] at h
        exact Statement.isWhole_iff.mpr ⟨s, h ▸ hv⟩
    · exact ih h

theorem isFlat_cons {before : Option Char} {c : Char} {t : Text}
    (h : isFlat before (c :: t) = true) : isFlat (some c) t = true := by
  rw [isFlat, Bool.and_eq_true] at h
  exact h.2

theorem isFlat_append {before : Option Char} {s t : Text} (h : isFlat before (s ++ t) = true) :
    isFlat (s.getLast?.or before) t = true := by
  induction s generalizing before with
  | nil => simpa using h
  | cons c s ih =>
    rw [getLast?_cons_or]
    exact ih (isFlat_cons h)

/-- In a flat text the imports are all the statements that begin in it. -/
theorem scans_statementTexts {before : Option Char} {t : Text} (h : isFlat before t = true) :
    Scans before t (statementTexts before t) := by
  induction hn : t.length using Nat.strongRecOn generalizing before t with
  | _ n ih =>
    cases t with
    | nil => exact .nil
    | cons c t =>
      have ht := ih t.length (by simp [← hn]) (isFlat_cons h) rfl
      cases hat : Import.at? before (c :: t) with
      | none =>
        rw [statementTexts_cons hat]
        exact .skip hat ht
      | some r =>
        obtain ⟨s, rest⟩ := r
        rw [isFlat, hat, Bool.and_eq_true] at h
        have hinside : statementTexts (some c) t = statementTexts (some ')') rest := by
          simpa using h.1
        obtain ⟨hbefore, w, hw, hcut⟩ := Import.at?_eq_some_iff.mp hat
        obtain ⟨v, hv⟩ := hw.exists_eq_append
        have hlater : isFlat (some ')') rest = true := by
          have hall : isFlat before (w ++ rest) = true := by
            rw [← hcut, isFlat, hat, Bool.and_eq_true]
            exact h
          simpa [hv] using isFlat_append hall
        have hlen : rest.length < n := by
          have hsum := congrArg List.length hcut
          rw [hn, List.length_append, hv] at hsum
          simp only [List.length_append, List.length_cons, List.length_nil] at hsum
          omega
        have hrest := ih rest.length hlen hlater rfl
        rw [statementTexts, hinside, hcut, firstText_of_written hbefore hw]
        exact .found hw hbefore hrest

theorem importTexts_of_isFlat {t : Text} (h : isFlat none t = true) :
    importTexts t = statementTexts none t := (scans_statementTexts h).importTexts_eq

end Namespacer
