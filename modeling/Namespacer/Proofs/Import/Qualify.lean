import Namespacer.Proofs.Import.Braces

/-! Qualifying the bare uses of a symbol. Qualifiers are inserted and nothing else changes, so no
statement comes into being, and those that stay statements keep their order. -/
namespace Namespacer

open Text

theorem isNameChar_eq_false_of_opensUse {c : Char} (h : opensUse c = true) :
    isNameChar c = false := by
  simp only [opensUse, Bool.or_eq_true, beq_iff_eq] at h
  rcases h with (h | rfl) | rfl
  · exact isNameChar_eq_false_of_isBlank h
  · rfl
  · rfl

theorem all_opensUse_eq_false {before : Option Char} (h : before.any isNameChar = true) :
    before.all opensUse = false := by
  cases before with
  | none => contradiction
  | some b =>
    rw [← Bool.not_eq_true]
    intro hopens
    rw [Option.any_some, isNameChar_eq_false_of_opensUse hopens] at h
    contradiction

theorem all_opensUse_dot : (some '.').all opensUse = false := rfl

/-! Qualifying from one character to the next. -/

/-- What is inserted before a text that stands after `before`. -/
def qualifier (name symbol : Text) (before : Option Char) (t : Text) : Text :=
  if before.all opensUse && startsUse symbol before t then name ++ ['.'] else []

/-- Qualifies the bare uses of a symbol in a text that stands after `before`. -/
def qualifyAfter (name symbol : Text) (before : Option Char) : Text → Text
  | [] => []
  | c :: t =>
    qualifier name symbol before (c :: t) ++ c :: qualifyAfter name symbol (some c) t

theorem startsUse_iff {symbol t : Text} {before : Option Char} :
    startsUse symbol before t = true ↔
      ∃ rest, t = symbol ++ rest ∧ boundary (symbol.getLast?.or before) rest.head? = true := by
  unfold startsUse
  constructor
  · intro h
    split at h
    · contradiction
    · next rest hafter => exact ⟨rest, after?_eq_some_iff.mp hafter, h⟩
  · rintro ⟨rest, rfl, h⟩
    rw [after?_eq_some_iff.mpr rfl]
    exact h

section Symbol

variable {name symbol : Text}

theorem qualifier_cases (name symbol : Text) (before : Option Char) (t : Text) :
    qualifier name symbol before t = [] ∨
      qualifier name symbol before t = name ++ ['.'] ∧ before.all opensUse = true ∧
        startsUse symbol before t = true := by
  unfold qualifier
  split
  · next h => exact .inr ⟨rfl, Bool.and_eq_true_iff.mp h⟩
  · exact .inl rfl

theorem qualifier_eq_nil {before : Option Char} (h : before.all opensUse = false) (t : Text) :
    qualifier name symbol before t = [] := by
  simp [qualifier, h]

theorem qualifyFrom_append (v t : Text) :
    qualifyFrom name symbol v.length (v ++ t) = v ++ qualifyFrom name symbol 0 t := by
  induction v with
  | nil => rfl
  | cons c v ih => rw [List.length_cons, List.cons_append, qualifyFrom, ih, List.cons_append]

theorem qualifyAfter_append_of_isNameChar {before : Option Char} {v : Text}
    (hbefore : before.any isNameChar = true) (hv : ∀ c ∈ v, isNameChar c = true) (t : Text) :
    qualifyAfter name symbol before (v ++ t) =
      v ++ qualifyAfter name symbol (v.getLast?.or before) t := by
  induction v generalizing before with
  | nil => rfl
  | cons c v ih =>
    obtain ⟨hc, hv⟩ := List.forall_mem_cons.mp hv
    rw [List.cons_append, qualifyAfter, qualifier_eq_nil (all_opensUse_eq_false hbefore),
      ih (by simpa using hc) hv, getLast?_cons_or]
    rfl

variable (hsymbol : isIdentifier symbol = true)

include hsymbol

theorem qualifyAfter_append_symbol {before : Option Char} (hbefore : before.all opensUse = true)
    {t : Text} (h : startsUse symbol before (symbol ++ t) = true) :
    qualifyAfter name symbol before (symbol ++ t) =
      name ++ '.' :: (symbol ++ qualifyAfter name symbol (symbol.getLast?.or before) t) := by
  cases symbol with
  | nil => contradiction
  | cons c v =>
    obtain ⟨hc, hv⟩ := List.forall_mem_cons.mp (isNameChar_of_isIdentifier hsymbol)
    have hqualifier : qualifier name (c :: v) before (c :: v ++ t) = name ++ ['.'] := by
      rw [qualifier, hbefore, h]
      rfl
    rw [List.cons_append] at hqualifier ⊢
    rw [qualifyAfter, hqualifier,
      qualifyAfter_append_of_isNameChar (by simpa using hc) hv, getLast?_cons_or]
    simp

theorem qualifyFrom_eq_qualifyAfter {before : Option Char} (hbefore : before.all opensUse = false)
    (t : Text) : qualifyFrom name symbol 0 t = qualifyAfter name symbol before t := by
  induction hn : t.length using Nat.strongRecOn generalizing t before with
  | _ n ih =>
    cases t with
    | nil => rfl
    | cons c t =>
      rw [qualifyFrom, qualifyAfter, qualifier_eq_nil hbefore, List.nil_append]
      split
      · next huse =>
        obtain ⟨hopens, hstarts⟩ := Bool.and_eq_true_iff.mp huse
        obtain ⟨rest, rfl, -⟩ := startsUse_iff.mp hstarts
        have hlast := any_getLast?_of_isIdentifier hsymbol (some c)
        have hlen : rest.length < n := by
          rw [← hn, List.length_cons, List.length_append]
          omega
        rw [qualifyFrom_append, qualifyAfter_append_symbol hsymbol (by simpa using hopens) hstarts,
          ih rest.length hlen (all_opensUse_eq_false hlast) rest rfl]
      · next hnot =>
        cases t with
        | nil => rfl
        | cons d t =>
          have hqualifier : qualifier name symbol (some c) (d :: t) = [] := by
            rw [qualifier, if_neg (by simpa using hnot)]
          rw [ih (d :: t).length (by simp [← hn]) all_opensUse_dot _ rfl, qualifyAfter,
            qualifyAfter, hqualifier, qualifier_eq_nil all_opensUse_dot]

theorem qualify_eq_qualifyAfter (t : Text) :
    qualify name symbol t = qualifyAfter name symbol none t := by
  unfold qualify
  split
  · next hstarts =>
    obtain ⟨rest, rfl, -⟩ := startsUse_iff.mp hstarts
    have hlast := any_getLast?_of_isIdentifier hsymbol none
    rw [qualifyFrom_append, qualifyAfter_append_symbol hsymbol rfl hstarts,
      qualifyFrom_eq_qualifyAfter hsymbol (all_opensUse_eq_false hlast)]
  · next hnot =>
    cases t with
    | nil => rfl
    | cons d t =>
      have hqualifier : qualifier name symbol none (d :: t) = [] := by
        rw [qualifier, if_neg (by simpa using hnot)]
      rw [qualifyFrom_eq_qualifyAfter hsymbol all_opensUse_dot, qualifyAfter, qualifyAfter,
        hqualifier, qualifier_eq_nil all_opensUse_dot]

end Symbol

/-! Insertions. -/

/-- `u` is `t` with qualifiers inserted before names. -/
inductive Inserted : (t u : Text) → Prop where
  | nil : Inserted [] []
  | keep {c : Char} {t u : Text} (h : Inserted t u) : Inserted (c :: t) (c :: u)
  | insert {c : Char} {name t u : Text} (hname : ∀ a ∈ name, isNameChar a = true)
      (hc : isNameChar c = true) (h : Inserted t u) :
      Inserted (c :: t) (name ++ '.' :: c :: u)

theorem exists_of_append_eq_append_cons {v u t y : Text} {d : Char} (hd : d ∉ v)
    (h : v ++ u = t ++ d :: y) : ∃ x, t = v ++ x ∧ u = x ++ d :: y := by
  induction v generalizing t with
  | nil => exact ⟨t, rfl, h⟩
  | cons a v ih =>
    obtain ⟨hda, hd⟩ := List.ne_and_not_mem_of_not_mem_cons hd
    cases t with
    | nil => exact absurd (List.cons.inj h).1.symm hda
    | cons b t =>
      obtain ⟨rfl, hrest⟩ := List.cons.inj h
      obtain ⟨x, rfl, hu⟩ := ih hd hrest
      exact ⟨x, rfl, hu⟩

namespace Inserted

/-- Characters that no qualifier has cut both texts at the same place. -/
theorem exists_cut {t u v : Text} {d : Char} (h : Inserted t (u ++ d :: v))
    (hname : isNameChar d = false) (hdot : d ≠ '.') :
    ∃ x y, t = x ++ d :: y ∧ Inserted x u ∧ Inserted y v := by
  generalize hall : u ++ d :: v = all at h
  induction h generalizing u with
  | nil => simp at hall
  | @keep c t u' h ih =>
    cases u with
    | nil =>
      obtain ⟨rfl, rfl⟩ := List.cons.inj hall
      exact ⟨[], t, rfl, .nil, h⟩
    | cons a u =>
      obtain ⟨rfl, hrest⟩ := List.cons.inj hall
      obtain ⟨x, y, rfl, hx, hy⟩ := ih hrest
      exact ⟨a :: x, y, rfl, .keep hx, hy⟩
  | @insert c name t u' hnames hc h ih =>
    have hout : d ∉ name ++ ['.', c] := by
      intro hmem
      rcases List.mem_append.mp hmem with hmem | hmem
      · rw [hnames d hmem] at hname
        contradiction
      · rcases List.mem_cons.mp hmem with heq | hmem
        · exact hdot heq
        · rw [List.mem_singleton.mp hmem, hc] at hname
          contradiction
    have hcut : (name ++ ['.', c]) ++ u' = u ++ d :: v := by simp [hall]
    obtain ⟨z, rfl, hrest⟩ := exists_of_append_eq_append_cons hout hcut
    obtain ⟨x, y, rfl, hx, hy⟩ := ih hrest.symm
    refine ⟨c :: x, y, rfl, ?_, hy⟩
    simpa using Inserted.insert hnames hc hx

theorem eq_of_not_mem {t u : Text} (h : Inserted t u) (hdot : '.' ∉ u) : t = u := by
  induction h with
  | nil => rfl
  | keep _ ih => rw [ih fun hmem => hdot (List.mem_cons_of_mem _ hmem)]
  | insert => simp at hdot

theorem mem_of_mem {t u : Text} (h : Inserted t u) {a : Char} (ha : a ∈ t) : a ∈ u := by
  induction h with
  | nil => exact ha
  | keep _ ih =>
    rcases List.mem_cons.mp ha with rfl | ha
    · exact List.mem_cons_self
    · exact List.mem_cons_of_mem _ (ih ha)
  | insert _ _ _ ih =>
    rcases List.mem_cons.mp ha with rfl | ha
    · simp
    · simp [ih ha]

theorem ne_nil {t u : Text} (h : Inserted t u) (hu : u ≠ []) : t ≠ [] := by
  cases h with
  | nil => exact hu
  | keep => simp
  | insert => simp

theorem append {t u t' u' : Text} (h : Inserted t u) (h' : Inserted t' u') :
    Inserted (t ++ t') (u ++ u') := by
  induction h with
  | nil => exact h'
  | keep _ ih => exact .keep ih
  | insert hname hc _ ih => simpa using Inserted.insert hname hc ih

theorem count_eq {t u : Text} (h : Inserted t u) {a : Char} (hname : isNameChar a = false)
    (hdot : a ≠ '.') : u.count a = t.count a := by
  induction h with
  | nil => rfl
  | keep _ ih => rw [List.count_cons, List.count_cons, ih]
  | @insert c name t u hnames _ _ ih =>
    have hzero : name.count a = 0 := by
      rw [List.count_eq_zero]
      intro hmem
      rw [hnames a hmem] at hname
      contradiction
    rw [List.count_append, List.count_cons, List.count_cons, List.count_cons, ih, hzero]
    simp [Ne.symm hdot]

theorem count_dot_le {t u : Text} (h : Inserted t u) : t.count '.' ≤ u.count '.' := by
  induction h with
  | nil => exact Nat.le_refl _
  | keep _ ih =>
    rw [List.count_cons, List.count_cons]
    omega
  | insert _ _ _ ih =>
    rw [List.count_append, List.count_cons, List.count_cons, List.count_cons]
    omega

theorem exists_binding {binding : Binding} {keyword a b t : Text} (hproper : binding.Proper)
    (hkeyword : '.' ∉ keyword ++ a) (hb : '.' ∉ b)
    (h : Inserted t (keyword ++ a ++ (binding.text ++ b))) :
    ∃ binding' : Binding, binding'.Proper ∧ t = keyword ++ a ++ (binding'.text ++ b) := by
  cases binding with
  | name id =>
    have hid : '.' ∉ id := fun hmem => by
      have hchar := hproper.2 '.' hmem
      contradiction
    refine ⟨.name id, hproper, h.eq_of_not_mem ?_⟩
    intro hmem
    rcases List.mem_append.mp hmem with hmem | hmem
    · exact hkeyword hmem
    · exact (List.mem_append.mp hmem).elim hid hb
  | braces inner =>
    have hbraces : Inserted t (keyword ++ a ++ '{' :: (inner ++ '}' :: b)) := by
      simpa [Binding.text] using h
    obtain ⟨x, y, rfl, hx, hy⟩ := hbraces.exists_cut rfl (by decide)
    obtain ⟨inner', y', rfl, hinner, hy'⟩ := hy.exists_cut rfl (by decide)
    refine ⟨.braces inner',
      ⟨hinner.ne_nil hproper.1, fun hmem => hproper.2 (hinner.mem_of_mem hmem)⟩, ?_⟩
    rw [hx.eq_of_not_mem hkeyword, hy'.eq_of_not_mem hb]
    simp [Binding.text]

/-- A text that reads as a statement once qualifiers are inserted was one before. -/
theorem exists_written {w w' : Text} {s' : Statement} (h : Inserted w w') (hw' : s'.Written w') :
    ∃ s : Statement, s.Written w := by
  cases hw' with
  | @intro keyword binding quote specifier a b c d e f hproper hne hquote hline hsome ha hb hc hd
      he hf =>
    have hblank {t : Text} (ht : Blank t) : '.' ∉ t := fun hmem => by
      have hchar := ht '.' hmem
      contradiction
    have hkeyword : '.' ∉ keyword.text ++ a := fun hmem => by
      rcases List.mem_append.mp hmem with hmem | hmem
      · have hchar := Keyword.isNameChar_of_mem hmem
        contradiction
      · exact hblank ha hmem
    have hrequire : '.' ∉ c ++ (Statement.requireWord ++ d) := by
      simp [hblank hc, hblank hd, Statement.requireWord]
    have hnotName : isNameChar quote.char = false := by cases quote <;> rfl
    have hnotDot : quote.char ≠ '.' := by cases quote <;> decide
    have hparts : Inserted w ((keyword.text ++ a ++ (binding.text ++ b)) ++ '=' ::
        ((c ++ (Statement.requireWord ++ d)) ++ '(' ::
          (e ++ quote.char :: (specifier ++ quote.char :: (f ++ [')']))))) := by
      simpa [Quote.wrap] using h
    obtain ⟨bound, afterEquals, rfl, hbound, hafterEquals⟩ := hparts.exists_cut rfl (by decide)
    obtain ⟨require, argument, rfl, hword, hargument⟩ := hafterEquals.exists_cut rfl (by decide)
    obtain ⟨opening, literal, rfl, hopening, hliteral⟩ := hargument.exists_cut hnotName hnotDot
    obtain ⟨specifier', closing, rfl, hspecifier, hclosing⟩ :=
      hliteral.exists_cut hnotName hnotDot
    obtain ⟨binding', hproper', rfl⟩ := exists_binding hproper hkeyword (hblank hb) hbound
    have hwritten : Statement.Written ⟨keyword, binding', quote, specifier'⟩ _ :=
      .intro hproper' (hspecifier.ne_nil hne) (fun hmem => hquote (hspecifier.mem_of_mem hmem))
        (fun hmem => hline (hspecifier.mem_of_mem hmem)) hsome ha hb hc hd he hf
    refine ⟨⟨keyword, binding', quote, specifier'⟩, ?_⟩
    rw [hword.eq_of_not_mem hrequire, hopening.eq_of_not_mem (hblank he),
      hclosing.eq_of_not_mem (by simp [hblank hf])]
    simpa [Quote.wrap] using hwritten

end Inserted

section Qualified

variable {name symbol : Text} (hname : isIdentifier name = true)
  (hsymbol : isIdentifier symbol = true)

include hname hsymbol in
theorem inserted_qualifyAfter (before : Option Char) (t : Text) :
    Inserted t (qualifyAfter name symbol before t) := by
  induction t generalizing before with
  | nil => exact .nil
  | cons c t ih =>
    rw [qualifyAfter]
    rcases qualifier_cases name symbol before (c :: t) with hnil | ⟨hqualifier, -, hstarts⟩
    · rw [hnil]
      exact .keep (ih (some c))
    · obtain ⟨rest, hrest, -⟩ := startsUse_iff.mp hstarts
      have hc : isNameChar c = true := by
        cases symbol with
        | nil => contradiction
        | cons a v =>
          rw [(List.cons.inj hrest).1]
          exact isNameChar_of_isIdentifier hsymbol a List.mem_cons_self
      rw [hqualifier, List.append_assoc]
      exact .insert (isNameChar_of_isIdentifier hname) hc (ih (some c))

include hsymbol

theorem startsUse_append_paren (before : Option Char) (v t : Text) :
    startsUse symbol before (v ++ ')' :: t) = startsUse symbol before (v ++ [')']) := by
  have hparen : ')' ∉ symbol := not_mem_of_isIdentifier hsymbol rfl
  have hcut {t : Text} (h : startsUse symbol before (v ++ ')' :: t) = true) (u : Text) :
      startsUse symbol before (v ++ ')' :: u) = true := by
    obtain ⟨rest, hrest, hboundary⟩ := startsUse_iff.mp h
    obtain ⟨x, rfl, rfl⟩ := exists_of_append_eq_append_cons hparen hrest.symm
    refine startsUse_iff.mpr ⟨x ++ ')' :: u, List.append_assoc _ _ _, ?_⟩
    cases x <;> exact hboundary
  rw [Bool.eq_iff_iff]
  exact ⟨fun h => hcut h [], fun h => hcut h t⟩

theorem qualifier_paren (before : Option Char) (t : Text) :
    qualifier name symbol before (')' :: t) = [] := by
  rcases qualifier_cases name symbol before (')' :: t) with hnil | ⟨-, -, hstarts⟩
  · exact hnil
  · obtain ⟨rest, hrest, -⟩ := startsUse_iff.mp hstarts
    cases symbol with
    | nil => contradiction
    | cons a v =>
      have hparen := isNameChar_of_isIdentifier hsymbol a List.mem_cons_self
      rw [← (List.cons.inj hrest).1] at hparen
      contradiction

/-- Closing parentheses cut the work in two. -/
theorem qualifyAfter_append_paren (before : Option Char) (v t : Text) :
    qualifyAfter name symbol before (v ++ ')' :: t) =
      qualifyAfter name symbol before (v ++ [')']) ++ qualifyAfter name symbol (some ')') t := by
  induction v generalizing before with
  | nil =>
    rw [List.nil_append, List.nil_append, qualifyAfter, qualifyAfter, qualifier_paren hsymbol,
      qualifier_paren hsymbol]
    rfl
  | cons a v ih =>
    have hstarts := startsUse_append_paren hsymbol before (a :: v) t
    rw [List.cons_append, List.cons_append] at hstarts ⊢
    rw [qualifyAfter, qualifyAfter, ih, qualifier, qualifier, hstarts, List.append_assoc,
      List.cons_append]

theorem qualifyFrom_cons (c : Char) (t : Text) :
    qualifyFrom name symbol 0 (c :: t) = c :: qualifyAfter name symbol (some c) t := by
  rw [qualifyFrom_eq_qualifyAfter hsymbol all_opensUse_dot, qualifyAfter,
    qualifier_eq_nil all_opensUse_dot, List.nil_append]

theorem qualifyFrom_append_paren (v t : Text) :
    qualifyFrom name symbol 0 (v ++ ')' :: t) =
      qualifyFrom name symbol 0 (v ++ [')']) ++ qualifyAfter name symbol (some ')') t := by
  rw [qualifyFrom_eq_qualifyAfter hsymbol all_opensUse_dot, qualifyAfter_append_paren hsymbol,
    qualifyFrom_eq_qualifyAfter hsymbol all_opensUse_dot]

theorem qualifyFrom_append_of_written {s : Statement} {w : Text} (hw : s.Written w) (rest : Text) :
    qualifyFrom name symbol 0 (w ++ rest) =
      qualifyFrom name symbol 0 w ++ qualifyAfter name symbol (some ')') rest := by
  obtain ⟨v, rfl⟩ := hw.exists_eq_append
  rw [List.append_assoc, List.singleton_append, qualifyFrom_append_paren hsymbol]

theorem exists_qualifyAfter_paren (before : Option Char) (v : Text) :
    ∃ u, qualifyAfter name symbol before (v ++ [')']) = u ++ [')'] := by
  induction v generalizing before with
  | nil =>
    refine ⟨[], ?_⟩
    rw [List.nil_append, qualifyAfter, qualifier_paren hsymbol]
    rfl
  | cons a v ih =>
    obtain ⟨u, hu⟩ := ih (some a)
    refine ⟨qualifier name symbol before (a :: (v ++ [')'])) ++ a :: u, ?_⟩
    rw [List.cons_append, qualifyAfter, hu, List.append_assoc, List.cons_append]

omit hsymbol in
/-- The place of the last of several equal characters is fixed by how many there are. -/
theorem eq_of_count_eq {u v t t' : Text} {d : Char} (h : u ++ d :: t = v ++ d :: t')
    (hcount : u.count d = v.count d) : u = v := by
  induction u generalizing v with
  | nil =>
    cases v with
    | nil => rfl
    | cons a v =>
      rw [← (List.cons.inj h).1] at hcount
      simp at hcount
  | cons a u ih =>
    cases v with
    | nil =>
      rw [(List.cons.inj h).1] at hcount
      simp at hcount
    | cons b v =>
      obtain ⟨rfl, hrest⟩ := List.cons.inj h
      rw [List.count_cons, List.count_cons, Nat.add_right_cancel_iff] at hcount
      rw [ih hrest hcount]

include hname

/-- A statement at the front of a qualified text comes from one that was there. -/
theorem exists_of_qualifyFrom {t w' rest' : Text} {s' : Statement} (hw' : s'.Written w')
    (h : qualifyFrom name symbol 0 t = w' ++ rest') :
    ∃ s : Statement, ∃ w rest, s.Written w ∧ t = w ++ rest ∧ w' = qualifyFrom name symbol 0 w ∧
      rest' = qualifyAfter name symbol (some ')') rest := by
  obtain ⟨v', rfl⟩ := hw'.exists_eq_append
  have hinserted : Inserted t (v' ++ ')' :: rest') := by
    have hall := inserted_qualifyAfter hname hsymbol (some '.') t
    rwa [← qualifyFrom_eq_qualifyAfter hsymbol all_opensUse_dot, h, List.append_assoc] at hall
  obtain ⟨v, rest, rfl, hv, hrest⟩ := hinserted.exists_cut rfl (by decide)
  obtain ⟨s, hw⟩ := (hv.append (.keep .nil)).exists_written hw'
  obtain ⟨u, hu⟩ : ∃ u, qualifyAfter name symbol (some '.') (v ++ [')']) = u ++ [')'] :=
    exists_qualifyAfter_paren hsymbol _ v
  have hends : Inserted (v ++ [')']) (u ++ [')']) := hu ▸ inserted_qualifyAfter hname hsymbol _ _
  have hcount : u.count ')' = v'.count ')' := by
    have h1 := hends.count_eq (a := ')') rfl (by decide)
    have h2 := hv.count_eq (a := ')') rfl (by decide)
    simp only [List.count_append] at h1
    omega
  rw [qualifyFrom_append_paren hsymbol, qualifyFrom_eq_qualifyAfter hsymbol all_opensUse_dot, hu]
    at h
  have heq : u = v' := eq_of_count_eq (by simpa using h) hcount
  subst heq
  refine ⟨s, v ++ [')'], rest, hw, by simp, ?_, (List.append_cancel_left h).symm⟩
  rw [qualifyFrom_eq_qualifyAfter hsymbol all_opensUse_dot, hu]

omit hsymbol in
theorem quiet_qualifier (before : Option Char) (t u : Text) :
    Quiet before (qualifier name symbol before t) u := by
  rcases qualifier_cases name symbol before t with hnil | ⟨hqualifier, -, -⟩
  · rw [hnil]
    trivial
  · rw [hqualifier]
    have hlist : ∀ a ∈ name, isListChar a = true := fun a ha =>
      isListChar_of_isNameChar (isNameChar_of_isIdentifier hname a ha)
    exact .of_isListChar hlist rfl (by decide) (by decide) u

omit hname hsymbol in
theorem any_getLast?_qualifier (name symbol : Text) (before : Option Char) (t : Text) :
    ((qualifier name symbol before t).getLast?.or before).any isNameChar =
      before.any isNameChar := by
  rcases qualifier_cases name symbol before t with hnil | ⟨hqualifier, hopens, -⟩
  · rw [hnil]
    rfl
  · rw [hqualifier, List.getLast?_concat]
    cases before with
    | none => rfl
    | some b =>
      have hb : isNameChar b = false := isNameChar_eq_false_of_opensUse (by simpa using hopens)
      exact hb.symm

theorem firstText_qualifyFrom {before before' : Option Char}
    (hbefore : before'.any isNameChar = before.any isNameChar) (t : Text) :
    firstText before' (qualifyFrom name symbol 0 t) =
      ((firstText before t).map (qualifyFrom name symbol 0)).filter Statement.isWhole := by
  refine firstText_edited hbefore (fun s' w' rest' hw' hu => ?_) (fun s w rest hw ht => ?_)
  · obtain ⟨s, w, rest, hw, ht, hedit, -⟩ := exists_of_qualifyFrom hname hsymbol hw' hu
    exact ⟨s, w, rest, hw, ht, hedit⟩
  · exact ⟨_, by rw [ht, qualifyFrom_append_of_written hsymbol hw]⟩

/-- Qualifying edits the statements of a text one by one, or makes an end of them. -/
theorem statementTexts_qualifyAfter (before : Option Char) (t : Text) :
    statementTexts before (qualifyAfter name symbol before t) =
      ((statementTexts before t).map (qualifyFrom name symbol 0)).filter Statement.isWhole := by
  induction t generalizing before with
  | nil => rfl
  | cons c t ih =>
    have hfirst := firstText_qualifyFrom hname hsymbol
      (any_getLast?_qualifier name symbol before (c :: t)) (c :: t)
    rw [qualifyFrom_cons hsymbol] at hfirst
    rw [qualifyAfter, (quiet_qualifier hname before _ _).statementTexts_eq, statementTexts, hfirst,
      ih, statementTexts, List.map_append, List.filter_append]

theorem simulates_qualifyAfter : Simulates (qualifyFrom name symbol 0) fun before before' t u =>
    before' = before ∧ u = qualifyAfter name symbol before t where
  found := by
    rintro _ before s w rest _ ⟨rfl, rfl⟩ hw hbefore
    refine ⟨qualifier name symbol before (w ++ rest), qualifyAfter name symbol (some ')') rest, ?_,
      quiet_qualifier hname before _ _, ?_, rfl, rfl⟩
    · obtain ⟨c, v, hcons, -⟩ := hw.exists_eq_cons
      rw [← qualifyFrom_append_of_written hsymbol hw, hcons, List.cons_append,
        qualifyFrom_cons hsymbol, qualifyAfter]
    · rw [any_getLast?_qualifier]
      exact hbefore
  skip := by
    rintro _ before a t _ ⟨rfl, rfl⟩ hnone
    have hfirst := firstText_qualifyFrom hname hsymbol
      (any_getLast?_qualifier name symbol before (a :: t)) (a :: t)
    rw [firstText_of_at?_eq_none hnone, qualifyFrom_cons hsymbol] at hfirst
    refine ⟨[a], t, qualifier name symbol before (a :: t) ++ [a],
      qualifyAfter name symbol (some a) t, rfl, List.cons_ne_nil a [], ⟨hnone, trivial⟩, ?_, ?_, ?_,
      rfl⟩
    · rw [qualifyAfter, List.append_assoc, List.singleton_append]
    · exact (quiet_qualifier hname before _ _).append ⟨at?_eq_none_of_firstText hfirst, trivial⟩
    · simp

theorem isFlat_qualifyAfter {before : Option Char} {t : Text} (h : isFlat before t = true) :
    isFlat before (qualifyAfter name symbol before t) = true := by
  induction t generalizing before with
  | nil => rfl
  | cons c t ih =>
    rw [qualifyAfter, (quiet_qualifier hname before _ _).isFlat_eq]
    refine isFlat_edited h (ih (isFlat_cons h)) (statementTexts_qualifyAfter hname hsymbol _ t)
      fun s' rest' hat' => ?_
    obtain ⟨hbefore, w', hw', hu⟩ := Import.at?_eq_some_iff.mp hat'
    rw [any_getLast?_qualifier] at hbefore
    obtain ⟨s, w, rest, hw, ht, -, rfl⟩ :=
      exists_of_qualifyFrom hname hsymbol hw' ((qualifyFrom_cons hsymbol c t).trans hu)
    exact ⟨s, rest, Import.at?_eq_some_iff.mpr ⟨hbefore, w, hw, ht⟩,
      statementTexts_qualifyAfter hname hsymbol _ rest⟩

end Qualified

/-! Whether anything is inserted. -/

/-- Whether a symbol is used bare behind the first character of a text. -/
def usesBare (symbol : Text) : Text → Bool
  | [] => false
  | c :: t => opensUse c && startsUse symbol (some c) t || usesBare symbol t

theorem qualifyFrom_of_not_usesBare {name symbol t : Text} (h : usesBare symbol t = false) :
    qualifyFrom name symbol 0 t = t := by
  induction t with
  | nil => rfl
  | cons c t ih =>
    rw [usesBare, Bool.or_eq_false_iff] at h
    rw [qualifyFrom, if_neg (by simp [h.1]), ih h.2]

theorem count_dot_qualifyAfter {name symbol : Text} (hname : isIdentifier name = true)
    (hsymbol : isIdentifier symbol = true) {before : Option Char} {t : Text}
    (hopens : before.all opensUse = true) (h : startsUse symbol before t = true) :
    t.count '.' < (qualifyAfter name symbol before t).count '.' := by
  cases t with
  | nil =>
    obtain ⟨rest, hrest, -⟩ := startsUse_iff.mp h
    have hnil := (List.append_eq_nil_iff.mp hrest.symm).1
    exact absurd hnil (ne_nil_of_isIdentifier hsymbol)
  | cons c t =>
    have hle := (inserted_qualifyAfter hname hsymbol (some c) t).count_dot_le
    rw [qualifyAfter, qualifier, hopens, h, Bool.and_self, if_pos rfl, List.count_append,
      List.count_append, List.count_cons, List.count_cons, List.count_cons]
    simp only [beq_self_eq_true, if_true]
    omega

theorem count_dot_qualifyFrom {name symbol : Text} (hname : isIdentifier name = true)
    (hsymbol : isIdentifier symbol = true) {t : Text} (h : usesBare symbol t = true) :
    t.count '.' < (qualifyFrom name symbol 0 t).count '.' := by
  rw [qualifyFrom_eq_qualifyAfter hsymbol all_opensUse_dot]
  generalize some '.' = before
  induction t generalizing before with
  | nil => contradiction
  | cons c t ih =>
    have hrest : t.count '.' < (qualifyAfter name symbol (some c) t).count '.' := by
      rw [usesBare, Bool.or_eq_true, Bool.and_eq_true] at h
      rcases h with ⟨hopens, hstarts⟩ | h
      · exact count_dot_qualifyAfter hname hsymbol (by simpa using hopens) hstarts
      · exact ih h (some c)
    rw [qualifyAfter, List.count_append, List.count_cons, List.count_cons]
    omega

end Namespacer
