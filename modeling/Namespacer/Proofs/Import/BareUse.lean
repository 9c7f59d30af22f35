import Namespacer.Proofs.Import.Fresh

/-! Bare uses of symbols. The symbols of a destructuring are qualified one after another, each in
the text that those before it have left. Where name and symbols are different identifiers, no pass
hides a use from another one or makes a new one, so the passes come to the same as one pass for all
symbols at once. A use counts as whole where its word ends, and `$` belongs to no word. -/
namespace Namespacer

open Text

/-- Whether a symbol is used bare at the front of `t`, which stands after `before`: at the start of
the text or behind white space or an opening bracket, and with no word going on behind it. -/
def isBareUse (symbol : Text) (before : Option Char) (t : Text) : Bool :=
  before.all opensUse && (after? symbol t).any fun rest => !isWord? rest.head?

/-- Qualifies the bare uses of all symbols at once, in a text that stands after `before`. -/
def qualifyTogether (name : Text) (symbols : List Text) (before : Option Char) : Text → Text
  | [] => []
  | c :: t =>
    let rest := c :: qualifyTogether name symbols (some c) t
    if symbols.any (isBareUse · before (c :: t)) then name ++ '.' :: rest else rest

theorem isBareUse_iff {symbol t : Text} {before : Option Char} :
    isBareUse symbol before t = true ↔
      before.all opensUse = true ∧ ∃ rest, t = symbol ++ rest ∧ isWord? rest.head? = false := by
  simp only [isBareUse, Bool.and_eq_true, Option.any_eq_true, after?_eq_some_iff, Bool.not_eq_true']

/-! Words. -/

theorem isWord_eq_false_of_opensUse {c : Char} (h : opensUse c = true) : isWord c = false := by
  simp only [opensUse, Bool.or_eq_true, beq_iff_eq] at h
  rcases h with (h | rfl) | rfl
  · exact isWord_eq_false_of_isBlank h
  · rfl
  · rfl

theorem isWord?_eq_false_of_opensUse {before : Option Char} (h : before.all opensUse = true) :
    isWord? before = false := by
  cases before with
  | none => rfl
  | some c => exact isWord_eq_false_of_opensUse h

theorem isWord_of_isIdentifier {t : Text} (h : isIdentifier t = true) :
    ∀ c ∈ t, isWord c = true := fun c hc =>
  isWord_of_isIdentifierChar (isIdentifierChar_of_isIdentifier h c hc)

theorem isWord?_getLast? {t : Text} (h : isIdentifier t = true) (before : Option Char) :
    isWord? (t.getLast?.or before) = true := by
  cases hlast : t.getLast? with
  | none => exact absurd (List.getLast?_eq_none_iff.mp hlast) (ne_nil_of_isIdentifier h)
  | some a => exact isWord_of_isIdentifier h a (List.mem_of_getLast? hlast)

/-- A text begins with one whole word at most. -/
theorem eq_of_whole_words {s n x y : Text} (hs : ∀ c ∈ s, isWord c = true)
    (hn : ∀ c ∈ n, isWord c = true) (hx : isWord? x.head? = false) (hy : isWord? y.head? = false)
    (h : s ++ x = n ++ y) : s = n := by
  have hend {r : Text} (hr : isWord? r.head? = false) : ∀ c ∈ r.head?, isWord c = false := by
    intro c hc
    rwa [Option.mem_def.mp hc] at hr
  have hleft : (s ++ x).takeWhile isWord = s :=
    (takeWhile_dropWhile_iff.mpr ⟨rfl, hs, hend hx⟩).1
  have hright : (n ++ y).takeWhile isWord = n :=
    (takeWhile_dropWhile_iff.mpr ⟨rfl, hn, hend hy⟩).1
  rw [← hleft, h, hright]

theorem isNameChar_iff_of_not_isWord {c : Char} (h : isWord c = false) :
    isNameChar c = true ↔ c = '$' := by
  constructor
  · intro hc
    have hcases : isIdentifierChar c = true ∨ c = '$' := by
      simpa [isNameChar, isIdentifierChar] using hc
    rcases hcases with hword | hdollar
    · rw [isWord_of_isIdentifierChar hword] at h
      contradiction
    · exact hdollar
  · rintro rfl
    rfl

/-! One symbol. -/

/-- The word of an identifier ends where no word character follows. -/
theorem isBareUse_eq_startsUse {symbol : Text} (hsymbol : isIdentifier symbol = true)
    (before : Option Char) (t : Text) :
    isBareUse symbol before t = (before.all opensUse && startsUse symbol before t) := by
  unfold isBareUse startsUse
  congr 1
  cases after? symbol t with
  | none => rfl
  | some rest => simp [boundary, isWord?_getLast? hsymbol]

theorem qualifyAfter_eq_qualifyTogether {symbol : Text} (hsymbol : isIdentifier symbol = true)
    (name : Text) (before : Option Char) (t : Text) :
    qualifyAfter name symbol before t = qualifyTogether name [symbol] before t := by
  induction t generalizing before with
  | nil => rfl
  | cons c t ih =>
    rw [qualifyAfter, qualifyTogether, qualifier, ← isBareUse_eq_startsUse hsymbol, ih]
    simp only [List.any_cons, List.any_nil, Bool.or_false]
    split
    · rw [List.append_assoc, List.singleton_append]
    · rfl

theorem qualify_eq_qualifyTogether {symbol : Text} (hsymbol : isIdentifier symbol = true)
    (name t : Text) : qualify name symbol t = qualifyTogether name [symbol] none t := by
  rw [qualify_eq_qualifyAfter hsymbol, qualifyAfter_eq_qualifyTogether hsymbol]

/-! Several symbols. -/

section Together

variable {name : Text} {symbols : List Text}

theorem qualifyTogether_nil (name : Text) (before : Option Char) (t : Text) :
    qualifyTogether name [] before t = t := by
  induction t generalizing before with
  | nil => rfl
  | cons c t ih =>
    rw [qualifyTogether, ih]
    rfl

/-- Only which symbols there are counts. -/
theorem qualifyTogether_congr {symbols' : List Text} (h : ∀ s, s ∈ symbols ↔ s ∈ symbols')
    (before : Option Char) (t : Text) :
    qualifyTogether name symbols before t = qualifyTogether name symbols' before t := by
  induction t generalizing before with
  | nil => rfl
  | cons c t ih =>
    have hany : symbols.any (isBareUse · before (c :: t)) =
        symbols'.any (isBareUse · before (c :: t)) := by
      rw [Bool.eq_iff_iff, List.any_eq_true, List.any_eq_true]
      simp only [h]
    rw [qualifyTogether, qualifyTogether, hany, ih]

theorem any_isBareUse_eq_false {before : Option Char} (h : before.all opensUse = false)
    (t : Text) : symbols.any (isBareUse · before t) = false := by
  simp [isBareUse, h]

/-- Behind a character that opens no use nothing is inserted. -/
theorem qualifyTogether_cons {before : Option Char} (h : before.all opensUse = false) (c : Char)
    (t : Text) :
    qualifyTogether name symbols before (c :: t) =
      c :: qualifyTogether name symbols (some c) t := by
  rw [qualifyTogether, any_isBareUse_eq_false h]
  rfl

theorem all_opensUse_of_isWord? {before : Option Char} (h : isWord? before = true) :
    before.all opensUse = false := by
  rw [← Bool.not_eq_true]
  intro hopens
  rw [isWord?_eq_false_of_opensUse hopens] at h
  contradiction

theorem qualifyTogether_append_of_isWord {before : Option Char} {v : Text}
    (hbefore : isWord? before = true) (hv : ∀ c ∈ v, isWord c = true) (t : Text) :
    qualifyTogether name symbols before (v ++ t) =
      v ++ qualifyTogether name symbols (v.getLast?.or before) t := by
  induction v generalizing before with
  | nil => rfl
  | cons c v ih =>
    obtain ⟨hc, hv⟩ := List.forall_mem_cons.mp hv
    have hnext : isWord? (some c) = true := hc
    rw [List.cons_append, qualifyTogether_cons (all_opensUse_of_isWord? hbefore), ih hnext hv,
      getLast?_cons_or, List.cons_append]

/-- Whether a word goes on is the same before and after other uses are qualified. -/
theorem after?_qualifyTogether {before : Option Char} {v : Text} (hbefore : isWord? before = true)
    (hv : ∀ c ∈ v, isWord c = true) (t : Text) :
    ((after? v (qualifyTogether name symbols before t)).any fun rest => !isWord? rest.head?) =
      (after? v t).any fun rest => !isWord? rest.head? := by
  have hopens := all_opensUse_of_isWord? hbefore
  induction v generalizing before t with
  | nil =>
    cases t with
    | nil => rfl
    | cons b t =>
      rw [qualifyTogether_cons hopens]
      rfl
  | cons a v ih =>
    obtain ⟨ha, hv⟩ := List.forall_mem_cons.mp hv
    cases t with
    | nil => rfl
    | cons b t =>
      rw [qualifyTogether_cons hopens, after?, after?]
      split
      · next hab =>
        subst hab
        have hnext : isWord? (some a) = true := ha
        exact ih hnext hv t (all_opensUse_of_isWord? hnext)
      · rfl

theorem isBareUse_qualifyTogether {symbol : Text} (hsymbol : isIdentifier symbol = true)
    (before : Option Char) (c : Char) (t : Text) :
    isBareUse symbol before (c :: qualifyTogether name symbols (some c) t) =
      isBareUse symbol before (c :: t) := by
  have hwords := isWord_of_isIdentifier hsymbol
  cases symbol with
  | nil => contradiction
  | cons a v =>
    obtain ⟨ha, hv⟩ := List.forall_mem_cons.mp hwords
    unfold isBareUse
    congr 1
    rw [after?, after?]
    split
    · next hac =>
      subst hac
      have hnext : isWord? (some a) = true := ha
      exact after?_qualifyTogether hnext hv t
    · rfl

section Names

variable (hname : isIdentifier name = true)
  (hsymbols : ∀ s ∈ symbols, isIdentifier s = true ∧ s ≠ name)

include hname hsymbols

theorem not_isBareUse_qualifier (before : Option Char) (t : Text) :
    symbols.any (isBareUse · before (name ++ '.' :: t)) = false := by
  rw [← Bool.not_eq_true, List.any_eq_true]
  rintro ⟨s, hs, huse⟩
  obtain ⟨hid, hne⟩ := hsymbols s hs
  obtain ⟨-, rest, heq, hrest⟩ := isBareUse_iff.mp huse
  exact hne (eq_of_whole_words (isWord_of_isIdentifier hid) (isWord_of_isIdentifier hname) hrest
    rfl heq.symm)

/-- A qualifier is passed over, together with the character that it stands before. -/
theorem qualifyTogether_qualifier (before : Option Char) (c : Char) (t : Text) :
    qualifyTogether name symbols before (name ++ '.' :: c :: t) =
      name ++ '.' :: c :: qualifyTogether name symbols (some c) t := by
  have hnone := not_isBareUse_qualifier hname hsymbols before (c :: t)
  have hwords := isWord_of_isIdentifier hname
  have hlast := isWord?_getLast? hname none
  cases name with
  | nil => contradiction
  | cons a v =>
    obtain ⟨ha, hv⟩ := List.forall_mem_cons.mp hwords
    have hnext : isWord? (some a) = true := ha
    rw [getLast?_cons_or] at hlast
    rw [List.cons_append] at hnone ⊢
    rw [qualifyTogether, hnone, qualifyTogether_append_of_isWord hnext hv,
      qualifyTogether_cons (all_opensUse_of_isWord? hlast), qualifyTogether_cons all_opensUse_dot]
    rfl

/-- A pass over the outcome of another pass finds what it would have found before. -/
theorem qualifyTogether_qualifyTogether (earlier : List Text) (before : Option Char) (t : Text) :
    qualifyTogether name symbols before (qualifyTogether name earlier before t) =
      qualifyTogether name (earlier ++ symbols) before t := by
  induction t generalizing before with
  | nil => rfl
  | cons c t ih =>
    rw [qualifyTogether, qualifyTogether, List.any_append]
    cases hused : earlier.any (isBareUse · before (c :: t)) with
    | true =>
      simp only [Bool.true_or, if_true]
      rw [qualifyTogether_qualifier hname hsymbols, ih]
    | false =>
      have hsame : symbols.any (isBareUse · before (c :: qualifyTogether name earlier (some c) t)) =
          symbols.any (isBareUse · before (c :: t)) := by
        rw [Bool.eq_iff_iff, List.any_eq_true, List.any_eq_true]
        apply exists_congr
        intro s
        apply and_congr_right
        intro hs
        rw [isBareUse_qualifyTogether (hsymbols s hs).1]
      simp only [Bool.false_or, Bool.false_eq_true, if_false]
      rw [qualifyTogether, hsame, ih]

theorem qualifyAll_eq_qualifyTogether (t : Text) :
    qualifyAll name symbols t = qualifyTogether name symbols none t := by
  induction symbols generalizing t with
  | nil => rw [qualifyAll_nil, qualifyTogether_nil]
  | cons s symbols ih =>
    obtain ⟨⟨hs, -⟩, hrest⟩ := List.forall_mem_cons.mp hsymbols
    rw [qualifyAll_cons, ih hrest, qualify_eq_qualifyTogether hs,
      qualifyTogether_qualifyTogether hname hrest, List.singleton_append]

end Names

/-! What is left. -/

theorem length_le_qualifyTogether (name : Text) (symbols : List Text) (before : Option Char)
    (t : Text) :
    t.length ≤ (qualifyTogether name symbols before t).length := by
  induction t generalizing before with
  | nil => exact Nat.le_refl _
  | cons c t ih =>
    have hrest := ih (some c)
    rw [qualifyTogether]
    split
    · rw [List.length_append, List.length_cons, List.length_cons, List.length_cons]
      omega
    · rw [List.length_cons, List.length_cons]
      omega

/-- Where a pass changes nothing there is no use. -/
theorem not_isBareUse_of_eq_self {before : Option Char} {t : Text}
    (h : qualifyTogether name symbols before t = t) {s : Text} (hs : s ∈ symbols) (hne : s ≠ [])
    {x y : Text} (ht : t = x ++ y) : isBareUse s (x.getLast?.or before) y = false := by
  induction t generalizing before x with
  | nil =>
    obtain ⟨rfl, rfl⟩ := List.append_eq_nil_iff.mp ht.symm
    cases s with
    | nil => contradiction
    | cons a s => simp [isBareUse, after?]
  | cons c t ih =>
    have hlength := congrArg List.length h
    have hle := length_le_qualifyTogether name symbols (some c) t
    rw [qualifyTogether] at h hlength
    split at hlength
    · rw [List.length_append, List.length_cons, List.length_cons, List.length_cons] at hlength
      omega
    · next hunused =>
      rw [if_neg hunused] at h
      cases x with
      | nil =>
        rw [List.nil_append] at ht
        subst ht
        rw [← Bool.not_eq_true]
        intro huse
        exact hunused (List.any_eq_true.mpr ⟨s, hs, huse⟩)
      | cons d x =>
        obtain ⟨rfl, hrest⟩ := List.cons.inj ht
        rw [getLast?_cons_or]
        exact ih (List.cons.inj h).2 hrest

end Together

namespace Destructuring

theorem collapse_eq_ok_iff {d : Destructuring} {file name t t' : Text} :
    d.collapse file name t = .ok t' ↔
      hasWord name t = false ∧ t' = qualifyAll name d.symbols (replaceAll d.binding name t) := by
  unfold collapse
  split
  · next hword => simp [hword]
  · next hword =>
    rw [Except.ok.injEq, eq_comm]
    simp only [hword, true_and]
    rfl

/-- Where name and symbols are different identifiers, the symbols are all qualified at once: the
name and a dot come before each bare use in the text with the name for the braces, and nowhere else.
So neither order nor repetition of the symbols matters, and no bare use is left. -/
theorem collapse_together {d : Destructuring} {file name t t' : Text}
    (hname : isIdentifier name = true)
    (hsymbols : ∀ s ∈ d.symbols, isIdentifier s = true ∧ s ≠ name)
    (h : d.collapse file name t = .ok t') :
    t' = qualifyTogether name d.symbols none (replaceAll d.binding name t) ∧
    (∀ d' : Destructuring, d'.binding = d.binding → (∀ s, s ∈ d'.symbols ↔ s ∈ d.symbols) →
      d'.collapse file name t = .ok t') ∧
    ∀ x y, t' = x ++ y → ∀ s ∈ d.symbols, isBareUse s x.getLast? y = false := by
  obtain ⟨hfresh, ht'⟩ := collapse_eq_ok_iff.mp h
  rw [qualifyAll_eq_qualifyTogether hname hsymbols] at ht'
  refine ⟨ht', fun d' hbinding hsame => ?_, fun x y hxy s hs => ?_⟩
  · have hsymbols' : ∀ s ∈ d'.symbols, isIdentifier s = true ∧ s ≠ name :=
      fun s hs => hsymbols s ((hsame s).mp hs)
    rw [collapse_eq_ok_iff, hbinding, qualifyAll_eq_qualifyTogether hname hsymbols',
      qualifyTogether_congr hsame]
    exact ⟨hfresh, ht'⟩
  · have hagain : qualifyTogether name d.symbols none t' = t' := by
      rw [ht', qualifyTogether_qualifyTogether hname hsymbols]
      exact qualifyTogether_congr (by simp) none _
    have hnone := not_isBareUse_of_eq_self hagain hs (ne_nil_of_isIdentifier (hsymbols s hs).1) hxy
    rwa [Option.or_none] at hnone

/-- A symbol that is the start of another one, a repeated symbol, uses side by side and a use at the
start of the text: in any order they come to the same. -/
theorem collapse_together_side_by_side :
    let t := "a(ab, [a]);\nlet { a, ab, a } = require('./m.js');\n(a ab)".toList
    let d : Destructuring := ⟨"'./m.js'".toList, "{ a, ab, a }".toList,
      ["a".toList, "ab".toList, "a".toList]⟩
    let t' := "M.a(M.ab, [M.a]);\nlet M = require('./m.js');\n(M.a M.ab)".toList
    d.collapse "x.js".toList "M".toList t = .ok t' ∧
      { d with symbols := ["ab".toList, "a".toList] }.collapse "x.js".toList "M".toList t =
        .ok t' := by
  intro t d t'
  have h : d.collapse "x.js".toList "M".toList t = .ok t' :=
    collapse_eq_ok_iff.mpr (by decide +kernel)
  obtain ⟨-, hsame, -⟩ := collapse_together (by decide +kernel) (by decide +kernel) h
  refine ⟨h, hsame _ rfl fun s => ?_⟩
  simp only [d, List.mem_cons, List.not_mem_nil, or_false]
  grind

/-- A use of a symbol that is qualified, given by what stands before and after it in the text that
the symbols listed earlier have left. -/
def Qualifies (d : Destructuring) (name t symbol before after : Text) : Prop :=
  ∃ earlier later, d.symbols = earlier ++ symbol :: later ∧
    qualifyAll name earlier (replaceAll d.binding name t) = before ++ (symbol ++ after) ∧
    isBareUse symbol before.getLast? (symbol ++ after) = true

/-- Each symbol in turn is qualified at its bare uses and nowhere else. A use that is qualified is
the start of a longer name exactly if a `$` follows it. -/
theorem collapse_longer_iff {d : Destructuring} {file name t t' : Text}
    (hsymbols : ∀ s ∈ d.symbols, isIdentifier s = true) (h : d.collapse file name t = .ok t') :
    t' = qualifyAll name d.symbols (replaceAll d.binding name t) ∧
    (∀ s ∈ d.symbols, ∀ u, qualify name s u = qualifyTogether name [s] none u) ∧
    ∀ symbol before after, d.Qualifies name t symbol before after →
      (after.head?.any isNameChar = true ↔ after.head? = some '$') := by
  refine ⟨(collapse_eq_ok_iff.mp h).2, fun s hs => qualify_eq_qualifyTogether (hsymbols s hs) name,
    ?_⟩
  rintro symbol before after ⟨earlier, later, -, -, huse⟩
  obtain ⟨-, rest, heq, hrest⟩ := isBareUse_iff.mp huse
  obtain rfl := List.append_cancel_left heq
  cases hhead : after.head? with
  | none => simp
  | some c =>
    rw [hhead] at hrest
    rw [Option.any_some, isNameChar_iff_of_not_isWord hrest, Option.some.injEq]

/-- `get` is qualified where it is the start of `get$`. -/
theorem collapse_longer_iff_dollar :
    let t := "let { get } = require('./db.js');\nget$();\n".toList
    let d : Destructuring := ⟨"'./db.js'".toList, "{ get }".toList, ["get".toList]⟩
    let before := "let Db = require('./db.js');\n".toList
    let after := "$();\n".toList
    d.collapse "a.js".toList "Db".toList t = .ok (before ++ "Db.get".toList ++ after) ∧
      d.Qualifies "Db".toList t "get".toList before after ∧
      after.head?.any isNameChar = true := by
  intro t d before after
  have h : d.collapse "a.js".toList "Db".toList t = .ok (before ++ "Db.get".toList ++ after) :=
    collapse_eq_ok_iff.mpr (by decide +kernel)
  have hqualifies : d.Qualifies "Db".toList t "get".toList before after :=
    ⟨[], [], rfl, by decide +kernel, by decide +kernel⟩
  obtain ⟨-, -, hiff⟩ := collapse_longer_iff (by decide +kernel) h
  exact ⟨h, hqualifies, (hiff _ _ _ hqualifies).mpr rfl⟩

end Destructuring
end Namespacer
