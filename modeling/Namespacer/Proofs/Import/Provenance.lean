import Namespacer.Proofs.Import.BareUse

/-! What a collapsed text is made of: characters that were there before, the name where the braces
stood, and the name with a dot in front of bare uses. A name that was not in the text as a whole
word is one afterwards only where a collapse has put it. -/
namespace Namespacer

open Text

/-! Whole words. -/

/-- Whether what stands between two texts is cut off from the words in them. -/
def IsWhole (before after : Text) : Prop :=
  isWord? before.getLast? = false ∧ isWord? after.head? = false

instance (before after : Text) : Decidable (IsWhole before after) :=
  inferInstanceAs (Decidable (_ ∧ _))

section Words

variable {name : Text} (hname : isIdentifier name = true)

include hname

theorem isWord?_head?_append (t : Text) : isWord? (name ++ t).head? = true := by
  have hwords := isWord_of_isIdentifier hname
  cases name with
  | nil => contradiction
  | cons a v => exact hwords a List.mem_cons_self

theorem startsWithWord_iff {before : Option Char} {t : Text} :
    startsWithWord name before t = true ↔
      isWord? before = false ∧ ∃ rest, t = name ++ rest ∧ isWord? rest.head? = false := by
  unfold startsWithWord
  constructor
  · intro h
    split at h
    · contradiction
    · next rest hrest =>
      obtain rfl := after?_eq_some_iff.mp hrest
      rw [boundary, boundary, isWord?_getLast? hname, isWord?_head?_append hname] at h
      refine ⟨by simpa using (Bool.and_eq_true_iff.mp h).1, rest, rfl, ?_⟩
      simpa using (Bool.and_eq_true_iff.mp h).2
  · rintro ⟨hbefore, rest, rfl, hrest⟩
    rw [after?_eq_some_iff.mpr rfl]
    dsimp only
    rw [boundary, boundary, isWord?_getLast? hname, isWord?_head?_append hname, hbefore, hrest]
    rfl

theorem hasWordAfter_iff {before : Option Char} {t : Text} :
    hasWordAfter name before t = true ↔ ∃ x y, t = x ++ (name ++ y) ∧
      isWord? (x.getLast?.or before) = false ∧ isWord? y.head? = false := by
  induction t generalizing before with
  | nil =>
    rw [hasWordAfter, startsWithWord_iff hname]
    constructor
    · rintro ⟨hbefore, rest, heq, hrest⟩
      exact ⟨[], rest, heq, hbefore, hrest⟩
    · rintro ⟨x, y, heq, hx, hy⟩
      obtain ⟨rfl, -⟩ := List.append_eq_nil_iff.mp heq.symm
      exact ⟨hx, y, heq, hy⟩
  | cons c t ih =>
    rw [hasWordAfter, Bool.or_eq_true, startsWithWord_iff hname, ih]
    constructor
    · rintro (⟨hbefore, rest, heq, hrest⟩ | ⟨x, y, rfl, hx, hy⟩)
      · exact ⟨[], rest, heq, hbefore, hrest⟩
      · exact ⟨c :: x, y, rfl, by rwa [getLast?_cons_or], hy⟩
    · rintro ⟨x, y, heq, hx, hy⟩
      cases x with
      | nil => exact .inl ⟨hx, y, heq, hy⟩
      | cons d x =>
        obtain ⟨rfl, hrest⟩ := List.cons.inj heq
        rw [getLast?_cons_or] at hx
        exact .inr ⟨x, y, hrest, hx, hy⟩

theorem hasWordAfter_append_right {before : Option Char} {u t : Text}
    (h : hasWordAfter name (u.getLast?.or before) t = true) :
    hasWordAfter name before (u ++ t) = true := by
  obtain ⟨x, y, rfl, hx, hy⟩ := (hasWordAfter_iff hname).mp h
  refine (hasWordAfter_iff hname).mpr ⟨u ++ x, y, by rw [List.append_assoc], ?_, hy⟩
  rwa [List.getLast?_append, Option.or_assoc]

theorem hasWord_iff {t : Text} :
    hasWord name t = true ↔ ∃ x y, t = x ++ (name ++ y) ∧ IsWhole x y := by
  rw [hasWord, hasWordAfter_iff hname]
  simp only [Option.or_none, IsWhole]

/-- A word cannot end inside the name. -/
theorem isWord?_head?_of_shorter {u v y : Text} (h : name ++ u = v ++ y)
    (hlength : v.length < name.length) : isWord? y.head? = true := by
  rcases List.append_eq_append_iff.mp h with ⟨z, rfl, -⟩ | ⟨z, rfl, rfl⟩
  · rw [List.length_append] at hlength
    omega
  · cases z with
    | nil => simp at hlength
    | cons c z => exact isWord_of_isIdentifier hname c (by simp)

/-- Nor can it begin inside the name. -/
theorem exists_of_append_name {u x y : Text} {before : Option Char}
    (h : name ++ u = x ++ (name ++ y)) (hx : isWord? (x.getLast?.or before) = false) :
    x = [] ∧ y = u ∨ ∃ x', x = name ++ x' ∧ u = x' ++ (name ++ y) := by
  rcases List.append_eq_append_iff.mp h with ⟨z, rfl, rfl⟩ | ⟨z, hz, heq⟩
  · exact .inr ⟨z, rfl, rfl⟩
  · cases hlast : x.getLast? with
    | none =>
      obtain rfl := List.getLast?_eq_none_iff.mp hlast
      exact .inl ⟨rfl, (List.append_cancel_left h).symm⟩
    | some a =>
      have ha : isWord a = true :=
        isWord_of_isIdentifier hname a (hz ▸ List.mem_append_left z (List.mem_of_getLast? hlast))
      rw [hlast] at hx
      change isWord a = false at hx
      rw [ha] at hx
      contradiction

end Words

/-! Pieces and parts. -/

/-- What a text with a name for its braces is made of. -/
inductive Piece where
  | kept (c : Char)
  | bound

/-- What a collapsed text is made of. -/
inductive Part where
  | piece (p : Piece)
  | qualifier

def Piece.text (name : Text) : Piece → Text
  | kept c => [c]
  | bound => name

def Piece.textOf (name : Text) (pieces : List Piece) : Text := pieces.flatMap (text name)

/-- A text cut from left to right at the places where braces stand. -/
inductive Cut (binding : Text) : (t : Text) → (pieces : List Piece) → Prop where
  | nil : Cut binding [] []
  | bound {t : Text} {pieces : List Piece} (h : Cut binding t pieces) :
      Cut binding (binding ++ t) (.bound :: pieces)
  | kept {c : Char} {t : Text} {pieces : List Piece} (hc : ¬ binding <+: c :: t)
      (h : Cut binding t pieces) : Cut binding (c :: t) (.kept c :: pieces)

namespace Part

def text (name : Text) : Part → Text
  | piece p => p.text name
  | qualifier => name ++ ['.']

/-- The text of a part before anything is qualified. -/
def plain (name : Text) : Part → Text
  | piece p => p.text name
  | qualifier => []

/-- The text of a part before the name takes the place of the braces. -/
def source (binding : Text) : Part → Text
  | piece p => p.text binding
  | qualifier => []

def textOf (name : Text) (parts : List Part) : Text := parts.flatMap (text name)

def plainOf (name : Text) (parts : List Part) : Text := parts.flatMap (plain name)

def sourceOf (binding : Text) (parts : List Part) : Text := parts.flatMap (source binding)

end Part

/-- Puts a qualifier before each piece, standing after `before`, where a symbol is used bare. -/
def Piece.qualified (name : Text) (symbols : List Text) (before : Option Char) :
    List Piece → List Part
  | [] => []
  | p :: pieces =>
    (if symbols.any (isBareUse · before (textOf name (p :: pieces))) then [.qualifier] else []) ++
      .piece p :: qualified name symbols ((p.text name).getLast?.or before) pieces

theorem exists_cut {binding : Text} (hbinding : binding ≠ []) (t : Text) :
    ∃ pieces, Cut binding t pieces := by
  induction t using occurrence_induction hbinding with
  | nil => exact ⟨[], .nil⟩
  | found t ih =>
    obtain ⟨pieces, h⟩ := ih
    exact ⟨_, .bound h⟩
  | kept c t hc ih =>
    obtain ⟨pieces, h⟩ := ih
    exact ⟨_, .kept hc h⟩

namespace Cut

variable {binding t : Text} {pieces : List Piece}

theorem replaceAll_eq (h : Cut binding t pieces) (hbinding : binding ≠ []) (name : Text) :
    replaceAll binding name t = Piece.textOf name pieces := by
  induction h with
  | nil => exact replaceAll_nil name hbinding
  | bound h ih =>
    rw [replaceAll_append name hbinding, ih]
    rfl
  | kept hc h ih =>
    rw [replaceAll_cons name hbinding hc, ih]
    rfl

theorem textOf_eq (h : Cut binding t pieces) : Piece.textOf binding pieces = t := by
  induction h with
  | nil => rfl
  | bound h ih => exact congrArg (binding ++ ·) ih
  | kept hc h ih => exact congrArg (_ :: ·) ih

end Cut

namespace Part

theorem getLast?_flatMap_cons (f : Part → Text) (p : Part) (parts : List Part)
    (before : Option Char) :
    ((p :: parts).flatMap f).getLast?.or before =
      (parts.flatMap f).getLast?.or ((f p).getLast?.or before) := by
  rw [List.flatMap_cons, List.getLast?_append, Option.or_assoc]

/-- Where the plain text is at the end of no word, neither is any other text of the parts that keeps
what was kept. -/
theorem isWord?_getLast?_of_plain {name : Text} (hname : isIdentifier name = true)
    {f : Part → Text} (hkept : ∀ c, f (.piece (.kept c)) = [c])
    (hqualifier : ∀ b, isWord? b = false → isWord? ((f .qualifier).getLast?.or b) = false)
    {parts : List Part} {before b : Option Char} (hb : isWord? before = false → isWord? b = false)
    (h : isWord? ((plainOf name parts).getLast?.or before) = false) :
    isWord? ((parts.flatMap f).getLast?.or b) = false := by
  induction parts generalizing before b with
  | nil => exact hb h
  | cons p parts ih =>
    rw [plainOf, getLast?_flatMap_cons] at h
    rw [getLast?_flatMap_cons]
    apply ih _ h
    intro hplain
    cases p with
    | qualifier => exact hqualifier b (hb hplain)
    | piece p =>
      cases p with
      | kept c =>
        rw [hkept]
        exact hplain
      | bound =>
        have hlast : isWord? (name.getLast?.or before) = false := hplain
        rw [isWord?_getLast? hname] at hlast
        contradiction

end Part

/-! Qualifying pieces. -/

namespace Piece

variable {name : Text} (symbols : List Text)

theorem flatMap_qualified {f : Part → Text} (hf : f .qualifier = []) (before : Option Char)
    (pieces : List Piece) :
    (qualified name symbols before pieces).flatMap f = pieces.flatMap fun p => f (.piece p) := by
  induction pieces generalizing before with
  | nil => rfl
  | cons p pieces ih =>
    rw [qualified, List.flatMap_append, List.flatMap_cons, List.flatMap_cons, ih]
    split
    · simp [hf]
    · simp

section Name

variable (hname : isIdentifier name = true)

include hname

/-- Behind the first character of a piece nothing is inserted. -/
theorem exists_text_eq (p : Piece) (before : Option Char) (t : Text) :
    ∃ c v, p.text name = c :: v ∧ qualifyTogether name symbols (some c) (v ++ t) =
      v ++ qualifyTogether name symbols ((p.text name).getLast?.or before) t := by
  cases p with
  | kept c => exact ⟨c, [], rfl, rfl⟩
  | bound =>
    obtain ⟨a, v, ha⟩ := List.exists_cons_of_ne_nil (ne_nil_of_isIdentifier hname)
    have hwords := isWord_of_isIdentifier hname
    rw [ha, List.forall_mem_cons] at hwords
    have hfirst : isWord? (some a) = true := hwords.1
    refine ⟨a, v, ha, ?_⟩
    rw [qualifyTogether_append_of_isWord hfirst hwords.2, text, ha, getLast?_cons_or]

theorem textOf_qualified (before : Option Char) (pieces : List Piece) :
    Part.textOf name (qualified name symbols before pieces) =
      qualifyTogether name symbols before (textOf name pieces) := by
  induction pieces generalizing before with
  | nil => rfl
  | cons p pieces ih =>
    have hcons : textOf name (p :: pieces) = p.text name ++ textOf name pieces := rfl
    obtain ⟨c, v, htext, hrest⟩ := exists_text_eq symbols hname p before (textOf name pieces)
    unfold Part.textOf at ih ⊢
    rw [qualified, List.flatMap_append, List.flatMap_cons, ih, hcons, Part.text, htext,
      List.cons_append, List.cons_append, qualifyTogether, hrest, htext]
    split
    · simp [Part.text]
    · rfl

/-- A use is in the text that a piece begins exactly if it is when what follows is qualified. -/
theorem isBareUse_text {s : Text} (hs : isIdentifier s = true) (p : Piece) (before : Option Char)
    (t : Text) :
    isBareUse s before
        (p.text name ++ qualifyTogether name symbols ((p.text name).getLast?.or before) t) =
      isBareUse s before (p.text name ++ t) := by
  obtain ⟨c, v, htext, hrest⟩ := exists_text_eq symbols hname p before t
  rw [htext] at hrest ⊢
  rw [List.cons_append, ← hrest, isBareUse_qualifyTogether hs, List.cons_append]

/-- A qualifier stands before a bare use in the plain text, and before the whole symbol. -/
theorem exists_of_qualified (hsymbols : ∀ s ∈ symbols, isIdentifier s = true)
    {before : Option Char} {pieces : List Piece} {earlier later : List Part}
    (h : qualified name symbols before pieces = earlier ++ .qualifier :: later) :
    ∃ s ∈ symbols,
      isBareUse s ((Part.plainOf name earlier).getLast?.or before) (Part.plainOf name later) =
        true ∧
      ∃ rest, Part.textOf name later = s ++ rest ∧ isWord? rest.head? = false := by
  induction pieces generalizing before earlier with
  | nil => simp [qualified] at h
  | cons p pieces ih =>
    -- the qualifier is the one before this piece, or it is found behind it
    have hbehind {between : List Part}
        (hb : .piece p :: qualified name symbols ((p.text name).getLast?.or before) pieces =
          between ++ .qualifier :: later) :
        ∃ s ∈ symbols,
          isBareUse s ((Part.plainOf name between).getLast?.or before) (Part.plainOf name later) =
            true ∧
          ∃ rest, Part.textOf name later = s ++ rest ∧ isWord? rest.head? = false := by
      cases between with
      | nil => simp at hb
      | cons q between =>
        obtain ⟨rfl, hrest⟩ := List.cons.inj hb
        rw [Part.plainOf, Part.getLast?_flatMap_cons]
        exact ih hrest
    rw [qualified] at h
    split at h
    · next hused =>
      rw [List.singleton_append] at h
      cases earlier with
      | cons q earlier =>
        rw [List.cons_append] at h
        obtain ⟨rfl, hrest⟩ := List.cons.inj h
        rw [Part.plainOf, Part.getLast?_flatMap_cons]
        exact hbehind hrest
      | nil =>
        rw [List.nil_append] at h
        obtain ⟨-, rfl⟩ := List.cons.inj h
        obtain ⟨s, hs, huse⟩ := List.any_eq_true.mp hused
        have htext : Part.textOf name
            (.piece p :: qualified name symbols ((p.text name).getLast?.or before) pieces) =
              p.text name ++ qualifyTogether name symbols ((p.text name).getLast?.or before)
                (textOf name pieces) := by
          rw [← textOf_qualified symbols hname]
          rfl
        have hplain : Part.plainOf name
            (.piece p :: qualified name symbols ((p.text name).getLast?.or before) pieces) =
              textOf name (p :: pieces) :=
          congrArg (p.text name ++ ·) (flatMap_qualified symbols rfl _ pieces)
        have hsame := isBareUse_text symbols hname (hsymbols s hs) p before (textOf name pieces)
        refine ⟨s, hs, ?_, ?_⟩
        · rw [hplain]
          exact huse
        · rw [htext]
          exact (isBareUse_iff.mp (hsame.trans huse)).2
    · exact hbehind h

/-- A qualifier stands behind no word, whatever becomes of what was not kept. -/
theorem isWord?_getLast?_of_qualified (hsymbols : ∀ s ∈ symbols, isIdentifier s = true)
    {f : Part → Text} (hkept : ∀ c, f (.piece (.kept c)) = [c])
    (hqualifier : ∀ b, isWord? b = false → isWord? ((f .qualifier).getLast?.or b) = false)
    {pieces : List Piece} {earlier later : List Part}
    (h : qualified name symbols none pieces = earlier ++ .qualifier :: later) :
    isWord? ((earlier.flatMap f).getLast?.or none) = false := by
  obtain ⟨s, -, huse, -⟩ := exists_of_qualified symbols hname hsymbols h
  have hplain := isWord?_eq_false_of_opensUse (isBareUse_iff.mp huse).1
  exact Part.isWord?_getLast?_of_plain hname hkept hqualifier id hplain

end Name
end Piece

/-! Where the name stands. -/

namespace Part

/-- A place in the text of some parts where a collapse has put the name. -/
def Puts (name : Text) (parts : List Part) (before after : Text) : Prop :=
  ∃ earlier later, before = textOf name earlier ∧
    (parts = earlier ++ .piece .bound :: later ∧ after = textOf name later ∨
      parts = earlier ++ .qualifier :: later ∧ after = '.' :: textOf name later)

theorem Puts.cons {name : Text} {parts : List Part} {before after : Text}
    (h : Puts name parts before after) (p : Part) :
    Puts name (p :: parts) (p.text name ++ before) after := by
  obtain ⟨earlier, later, rfl, h⟩ := h
  refine ⟨p :: earlier, later, rfl, ?_⟩
  rcases h with ⟨rfl, rfl⟩ | ⟨rfl, rfl⟩
  · exact .inl ⟨rfl, rfl⟩
  · exact .inr ⟨rfl, rfl⟩

section Name

variable {name binding : Text} (hname : isIdentifier name = true)

include hname

/-- A word that is shorter than the name is made of what was kept. -/
theorem exists_source_of_shorter {parts : List Part} {v y : Text}
    (h : textOf name parts = v ++ y) (hlength : v.length < name.length)
    (hy : isWord? y.head? = false) :
    ∃ rest, sourceOf binding parts = v ++ rest ∧ isWord? rest.head? = false := by
  induction parts generalizing v with
  | nil =>
    obtain ⟨rfl, rfl⟩ := List.append_eq_nil_iff.mp h.symm
    exact ⟨[], rfl, rfl⟩
  | cons p parts ih =>
    have hput {u : Text} (hu : name ++ u = v ++ y) : False := by
      rw [isWord?_head?_of_shorter hname hu hlength] at hy
      contradiction
    cases p with
    | qualifier =>
      have hu : name ++ ('.' :: textOf name parts) = v ++ y := by
        rw [← h]
        simp [textOf, text]
      exact (hput hu).elim
    | piece p =>
      cases p with
      | bound => exact (hput h).elim
      | kept c =>
        cases v with
        | nil =>
          refine ⟨_, rfl, ?_⟩
          rw [List.nil_append] at h
          rw [← h] at hy
          exact hy
        | cons a v =>
          obtain ⟨rfl, hrest⟩ := List.cons.inj h
          obtain ⟨rest, hsource, hend⟩ := ih hrest (Nat.lt_of_succ_lt hlength)
          exact ⟨rest, congrArg (c :: ·) hsource, hend⟩

/-- Where qualifiers stand behind no word of the source, a whole name is one that a collapse has
put there, or it is whole in the source. -/
theorem puts_or_hasWordAfter {parts : List Part} {x y : Text} {before b : Option Char}
    (hplaced : ∀ earlier later, parts = earlier ++ .qualifier :: later →
      isWord? ((sourceOf binding earlier).getLast?.or b) = false)
    (hb : isWord? before = false → isWord? b = false)
    (h : textOf name parts = x ++ (name ++ y)) (hx : isWord? (x.getLast?.or before) = false)
    (hy : isWord? y.head? = false) :
    Puts name parts x y ∨ hasWordAfter name b (sourceOf binding parts) = true := by
  induction parts generalizing x before b with
  | nil =>
    obtain ⟨-, hnil⟩ := List.append_eq_nil_iff.mp h.symm
    exact absurd (List.append_eq_nil_iff.mp hnil).1 (ne_nil_of_isIdentifier hname)
  | cons p parts ih =>
    have hbehind {x' : Text} {before' : Option Char} (hx' : x = p.text name ++ x')
        (heq : textOf name parts = x' ++ (name ++ y))
        (hb' : isWord? before' = false → isWord? ((p.source binding).getLast?.or b) = false)
        (hword : isWord? (x'.getLast?.or before') = false) :
        Puts name (p :: parts) x y ∨
          hasWordAfter name b (sourceOf binding (p :: parts)) = true := by
      have hrest : ∀ earlier later, parts = earlier ++ .qualifier :: later →
          isWord? ((sourceOf binding earlier).getLast?.or ((p.source binding).getLast?.or b)) =
            false := by
        intro earlier later hparts
        have hcons := hplaced (p :: earlier) later (congrArg (p :: ·) hparts)
        rwa [sourceOf, getLast?_flatMap_cons] at hcons
      rcases ih hrest hb' heq hword with hputs | hsource
      · rw [hx']
        exact .inl (hputs.cons p)
      · exact .inr (hasWordAfter_append_right hname hsource)
    cases p with
    | qualifier =>
      have heq : name ++ ('.' :: textOf name parts) = x ++ (name ++ y) := by
        rw [← h]
        simp [textOf, text]
      rcases exists_of_append_name hname heq hx with ⟨rfl, rfl⟩ | ⟨x', rfl, hdot⟩
      · exact .inl ⟨[], parts, rfl, .inr ⟨rfl, rfl⟩⟩
      · cases x' with
        | nil =>
          have hhead := isWord?_head?_append hname y
          rw [List.nil_append] at hdot
          rw [← hdot] at hhead
          contradiction
        | cons a x' =>
          obtain ⟨rfl, hdots⟩ := List.cons.inj hdot
          rw [List.getLast?_append, Option.or_assoc, getLast?_cons_or] at hx
          exact hbehind (by simp [text]) hdots (fun _ => hplaced [] parts rfl) hx
    | piece p =>
      cases p with
      | bound =>
        rcases exists_of_append_name hname h hx with ⟨rfl, rfl⟩ | ⟨x', rfl, heq⟩
        · exact .inl ⟨[], parts, rfl, .inl ⟨rfl, rfl⟩⟩
        · rw [List.getLast?_append, Option.or_assoc] at hx
          refine hbehind rfl heq (fun hlast => ?_) hx
          rw [isWord?_getLast? hname] at hlast
          contradiction
      | kept c =>
        cases x with
        | cons a x =>
          obtain ⟨rfl, heq⟩ := List.cons.inj h
          rw [getLast?_cons_or] at hx
          exact hbehind rfl heq id hx
        | nil =>
          -- the name begins with what was kept and reaches too little far for a name that is put
          obtain ⟨a, v, hv⟩ := List.exists_cons_of_ne_nil (ne_nil_of_isIdentifier hname)
          have hcons : c :: textOf name parts = a :: (v ++ y) := h.trans (congrArg (· ++ y) hv)
          obtain ⟨rfl, heq⟩ := List.cons.inj hcons
          obtain ⟨rest, hsource, hrest⟩ := exists_source_of_shorter hname heq (by simp [hv]) hy
          refine .inr ((hasWordAfter_iff hname).mpr ⟨[], rest, ?_, hb hx, hrest⟩)
          rw [hv]
          exact congrArg (c :: ·) hsource

end Name
end Part

namespace Destructuring

theorem collapse_error_iff {d : Destructuring} {file name t : Text} :
    (∃ failure, d.collapse file name t = .error failure) ↔ hasWord name t = true := by
  unfold collapse
  split
  · next hword => simp [hword]
  · next hword => simp [hword]

/-- Nothing but a whole name in the text makes a collapse fail. Where it goes through, a whole name
in what it leaves stands where braces stood or comes with a dot before a bare use, and each name
that comes with a dot is whole. -/
theorem collapse_words {d : Destructuring} {file name t : Text} (hname : isIdentifier name = true)
    (hbinding : d.binding ≠ []) (hsymbols : ∀ s ∈ d.symbols, isIdentifier s = true ∧ s ≠ name) :
    ((∃ failure, d.collapse file name t = .error failure) ↔
      ∃ x y, t = x ++ (name ++ y) ∧ IsWhole x y) ∧
    ∀ t', d.collapse file name t = .ok t' → ∃ pieces, Cut d.binding t pieces ∧
      let parts := Piece.qualified name d.symbols none pieces
      t' = Part.textOf name parts ∧
      (∀ x y, t' = x ++ (name ++ y) → IsWhole x y → Part.Puts name parts x y) ∧
      ∀ earlier later, parts = earlier ++ .qualifier :: later →
        IsWhole (Part.textOf name earlier) ('.' :: Part.textOf name later) ∧
        ∃ s ∈ d.symbols,
          isBareUse s (Part.plainOf name earlier).getLast? (Part.plainOf name later) = true ∧
          ∃ rest, Part.textOf name later = s ++ rest ∧ isWord? rest.head? = false := by
  refine ⟨collapse_error_iff.trans (hasWord_iff hname), fun t' h => ?_⟩
  obtain ⟨hfresh, ht'⟩ := collapse_eq_ok_iff.mp h
  obtain ⟨pieces, hcut⟩ := exists_cut hbinding t
  rw [qualifyAll_eq_qualifyTogether hname hsymbols, hcut.replaceAll_eq hbinding,
    ← Piece.textOf_qualified d.symbols hname] at ht'
  have hids : ∀ s ∈ d.symbols, isIdentifier s = true := fun s hs => (hsymbols s hs).1
  refine ⟨pieces, hcut, ht', fun x y hxy hwhole => ?_, fun earlier later hparts => ?_⟩
  · have hsource : Part.sourceOf d.binding (Piece.qualified name d.symbols none pieces) = t :=
      (Piece.flatMap_qualified d.symbols rfl none pieces).trans hcut.textOf_eq
    have hplaced : ∀ earlier later,
        Piece.qualified name d.symbols none pieces = earlier ++ .qualifier :: later →
          isWord? ((Part.sourceOf d.binding earlier).getLast?.or none) = false :=
      fun earlier later hparts => Piece.isWord?_getLast?_of_qualified (f := Part.source d.binding)
        d.symbols hname hids (fun _ => rfl) (fun _ hb => hb) hparts
    have hx : isWord? (x.getLast?.or none) = false := by
      rw [Option.or_none]
      exact hwhole.1
    rcases Part.puts_or_hasWordAfter hname hplaced id (ht'.symm.trans hxy) hx hwhole.2 with
      hputs | hword
    · exact hputs
    · rw [hsource] at hword
      rw [hasWord, hword] at hfresh
      contradiction
  · obtain ⟨s, hs, huse, hsymbol⟩ := Piece.exists_of_qualified d.symbols hname hids hparts
    have hdot (b : Option Char) : isWord? ((Part.qualifier.text name).getLast?.or b) = false := by
      rw [Part.text, List.getLast?_concat]
      rfl
    have hbehind : isWord? ((Part.textOf name earlier).getLast?.or none) = false :=
      Piece.isWord?_getLast?_of_qualified (f := Part.text name) d.symbols hname hids
        (fun _ => rfl) (fun b _ => hdot b) hparts
    rw [Option.or_none] at hbehind huse
    exact ⟨⟨hbehind, rfl⟩, s, hs, huse, hsymbol⟩

/-- Braces behind a word and two braces side by side leave no whole name, and the name that ends a
longer word is none. -/
theorem collapse_words_joined :
    let t := "x{ a }; { a }{ a } _M {b, a} a(a)".toList
    let d : Destructuring := ⟨"'./m.js'".toList, "{ a }".toList, ["a".toList]⟩
    let t' := "xM; MM _M {b, M.a} M.a(M.a)".toList
    d.collapse "x.js".toList "M".toList t = .ok t' ∧
      (¬ ∃ x y, t = x ++ ("M".toList ++ y) ∧ IsWhole x y) ∧
      ∃ pieces, Cut d.binding t pieces ∧
        let parts := Piece.qualified "M".toList d.symbols none pieces
        t' = Part.textOf "M".toList parts ∧
        Part.Puts "M".toList parts "xM; MM _M {b, M.a} ".toList ".a(M.a)".toList := by
  intro t d t'
  have h : d.collapse "x.js".toList "M".toList t = .ok t' :=
    collapse_eq_ok_iff.mpr (by decide +kernel)
  obtain ⟨hfails, hpieces⟩ := @collapse_words d "x.js".toList "M".toList t
    (by decide +kernel) (by decide +kernel) (by decide +kernel)
  obtain ⟨pieces, hcut, ht', hputs, -⟩ := hpieces t' h
  refine ⟨h, fun hword => ?_, pieces, hcut, ht', hputs _ _ rfl (by decide +kernel)⟩
  obtain ⟨failure, hfailure⟩ := hfails.mpr hword
  rw [h] at hfailure
  contradiction

end Destructuring
end Namespacer
