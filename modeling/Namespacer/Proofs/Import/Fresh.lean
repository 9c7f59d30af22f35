import Namespacer.Proofs.Import.Sequence

/-! A collapse is refused where its name stands in the text as a whole word. So the name is not one
that an earlier collapse has put in, and each import tells its own collapse from the others. -/
namespace Namespacer

open Text

/-! Names as whole words. -/

def blankPoints : List Nat := blankRanges.flatMap fun r => List.range' r.1 (r.2 + 1 - r.1)

theorem mem_blankPoints_of_isBlank {c : Char} (h : isBlank c = true) : c.toNat ∈ blankPoints := by
  obtain ⟨r, hr, hc⟩ := List.any_eq_true.mp h
  simp only [Bool.and_eq_true, decide_eq_true_eq] at hc
  refine List.mem_flatMap.mpr ⟨r, hr, ?_⟩
  rw [List.mem_range'_1]
  omega

theorem not_inRanges_of_mem_blankPoints :
    ∀ n ∈ blankPoints, 128 ≤ n → inRanges wordRanges n = false := by
  decide +kernel

theorem isWord_eq_false_of_isBlank {c : Char} (h : isBlank c = true) : isWord c = false := by
  unfold isWord
  split
  · have hname := isNameChar_eq_false_of_isBlank h
    rw [isNameChar, Bool.or_eq_false_iff] at hname
    exact hname.1
  · exact not_inRanges_of_mem_blankPoints _ (mem_blankPoints_of_isBlank h) (by omega)

theorem isWord_of_isIdentifierChar {c : Char} (h : isIdentifierChar c = true) :
    isWord c = true := by
  have hrange := toNat_of_isNameChar (isNameChar_of_isIdentifierChar h)
  rw [isWord, if_pos (by omega)]
  exact h

theorem startsWithWord_append {name : Text} (hname : isIdentifier name = true) {b d : Char}
    (hb : isWord b = false) (hd : isWord d = false) (t : Text) :
    startsWithWord name (some b) (name ++ d :: t) = true := by
  have hchars := isIdentifierChar_of_isIdentifier hname
  rw [startsWithWord, after?_eq_some_iff.mpr rfl]
  cases hlast : name.getLast? with
  | none => exact absurd (List.getLast?_eq_none_iff.mp hlast) (ne_nil_of_isIdentifier hname)
  | some a =>
    have ha := isWord_of_isIdentifierChar (hchars a (List.mem_of_getLast? hlast))
    cases name with
    | nil => contradiction
    | cons c name =>
      have hc := isWord_of_isIdentifierChar (hchars c List.mem_cons_self)
      simp [boundary, isWord?, ha, hb, hc, hd]

theorem hasWordAfter_append {name t : Text} {b : Char}
    (h : hasWordAfter name (some b) t = true) (before : Option Char) (x : Text) :
    hasWordAfter name before (x ++ b :: t) = true := by
  induction x generalizing before with
  | nil => rw [List.nil_append, hasWordAfter, h, Bool.or_true]
  | cons a x ih => rw [List.cons_append, hasWordAfter, ih, Bool.or_true]

theorem hasWord_append {name : Text} (hname : isIdentifier name = true) {b d : Char}
    (hb : isWord b = false) (hd : isWord d = false) (x y : Text) :
    hasWord name (x ++ b :: (name ++ d :: y)) = true := by
  apply hasWordAfter_append
  have hstarts := startsWithWord_append hname hb hd y
  cases hall : name ++ d :: y with
  | nil => simp at hall
  | cons c t =>
    rw [hall] at hstarts
    rw [hasWordAfter, hstarts, Bool.true_or]

/-- The name that a statement binds stands in the text as a whole word. -/
theorem Statement.Written.hasWord {s : Statement} {w name t : Text} (h : s.Written w)
    (hname : isIdentifier name = true) (hbinding : s.binding = .name name) (hw : w <:+: t) :
    hasWord name t = true := by
  obtain ⟨x, y, rfl⟩ := hw
  cases h with
  | @intro keyword binding quote specifier a b c d e f hproper hne hquote hline hsome ha hb =>
    subst hbinding
    obtain ⟨a', g, rfl⟩ : ∃ a' g, a = a' ++ [g] :=
      ⟨_, _, (List.dropLast_concat_getLast hsome).symm⟩
    have hg : isWord g = false := isWord_eq_false_of_isBlank (ha g (by simp))
    have hnext (rest : Text) : ∃ k rest', b ++ '=' :: rest = k :: rest' ∧ isWord k = false := by
      cases b with
      | nil => exact ⟨'=', rest, rfl, rfl⟩
      | cons k b => exact ⟨k, _, rfl, isWord_eq_false_of_isBlank (hb k List.mem_cons_self)⟩
    obtain ⟨k, rest, hrest, hk⟩ := hnext (c ++ (requireWord ++ (d ++ ('(' :: (e ++
      (quote.wrap specifier ++ (f ++ [')'])))))) ++ y)
    have hword := hasWord_append hname hg hk (x ++ (keyword.text ++ a')) rest
    rw [← hrest] at hword
    simpa [Binding.text] using hword

namespace Collapse

theorem isClearAll_append {steps later : List Collapse} {t : Text}
    (h : isClearAll (steps ++ later) t = true) : isClearAll steps t = true := by
  induction steps generalizing t with
  | nil => rfl
  | cons c steps ih =>
    rw [List.cons_append, isClearAll, Bool.and_eq_true] at h
    rw [isClearAll, h.1, Bool.true_and]
    exact ih h.2

/-- Whether every collapse finds its name absent from the text that it works on. -/
def namesFresh : List Collapse → Text → Bool
  | [], _ => true
  | c :: steps, t => !hasWord c.name t && namesFresh steps (c.applied t)

theorem not_hasWord_of_namesFresh {earlier later : List Collapse} {c : Collapse} {t : Text}
    (h : namesFresh (earlier ++ c :: later) t = true) :
    hasWord c.name (appliedAll earlier t) = false := by
  induction earlier generalizing t with
  | nil =>
    rw [List.nil_append, namesFresh, Bool.and_eq_true, Bool.not_eq_true'] at h
    exact h.1
  | cons e earlier ih =>
    rw [List.cons_append, namesFresh, Bool.and_eq_true] at h
    exact ih h.2

/-- No import binds the name of a collapse before its turn. -/
theorem binding_ne_name {earlier later : List Collapse} {c : Collapse} {t : Text}
    (hproper : ∀ e ∈ earlier ++ c :: later, e.Proper)
    (hclear : isClearAll (earlier ++ c :: later) t = true)
    (hfresh : namesFresh (earlier ++ c :: later) t = true) {ws rest : List Text}
    (htexts : importTexts t = ws ++ rest)
    (hstays : ∀ w ∈ ws, staysImport (earlier ++ c :: later) w = true) {w : Text} (hw : w ∈ ws)
    {s : Statement} (hs : s.Written (withinAll earlier w)) : s.binding ≠ .name c.name := by
  intro hbinding
  have hearlier : ∀ e ∈ earlier, e.Proper := fun e he => hproper e (by simp [he])
  have hc : c.Proper := hproper c (by simp)
  simp only [staysImport_append, Bool.and_eq_true] at hstays
  obtain ⟨rest', htexts'⟩ := exists_importTexts_appliedAll hearlier (isClearAll_append hclear)
    htexts fun w hw => (hstays w hw).1
  have hmem : withinAll earlier w ∈ importTexts (appliedAll earlier t) := by
    rw [htexts']
    exact List.mem_append_left _ (List.mem_map_of_mem hw)
  have hword := hs.hasWord hc.name hbinding ((scans_importTexts _).infix_of_mem hmem)
  rw [not_hasWord_of_namesFresh hfresh] at hword
  contradiction
end Collapse
end Namespacer
