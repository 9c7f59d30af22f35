import Mathlib.Data.List.Forall2
import Namespacer.Import.PathForm
import Namespacer.Proofs.Import.Braces

/-! Completing a quoted specifier all over a text, and what that does to the import statements in
it: each stays where it is, and its specifier is completed if it is the one. Within braces quoted
text may change as well. -/
namespace Namespacer

open Text

def isQuote (c : Char) : Bool := (Quote.ofChar? c).isSome

theorem isQuote_char (q : Quote) : isQuote q.char = true := by cases q <;> rfl

theorem exists_of_isQuote {c : Char} (h : isQuote c = true) : ∃ q : Quote, c = q.char := by
  obtain ⟨q, hq⟩ := Option.isSome_iff_exists.mp h
  exact ⟨q, Quote.ofChar?_eq_some_iff.mp hq⟩

theorem of_isQuote {c : Char} (h : isQuote c = true) :
    isNameChar c = false ∧ isBlank c = false := by
  obtain ⟨q, rfl⟩ := exists_of_isQuote h
  cases q <;> exact ⟨rfl, rfl⟩

/-- Whether a text ends like an import statement in front of its specifier. -/
def OpensImport (t : Text) : Prop :=
  ∃ x a b c, Blank a ∧ Blank b ∧ Blank c ∧
    t = x ++ (['='] ++ (a ++ (Statement.requireWord ++ (b ++ (['('] ++ c)))))

theorem OpensImport.append {t : Text} (h : OpensImport t) (s : Text) : OpensImport (s ++ t) := by
  obtain ⟨x, a, b, c, ha, hb, hc, rfl⟩ := h
  exact ⟨s ++ x, a, b, c, ha, hb, hc, by simp⟩

theorem OpensImport.exists_last {t : Text} (h : OpensImport t) :
    ∃ init k, t = init ++ [k] ∧ (k = '(' ∨ isBlank k = true) := by
  obtain ⟨x, a, b, c, -, -, hc, rfl⟩ := h
  rcases List.eq_nil_or_concat c with rfl | ⟨c, k, rfl⟩
  · exact ⟨x ++ (['='] ++ (a ++ (Statement.requireWord ++ b))), '(', by simp, .inl rfl⟩
  · exact ⟨x ++ (['='] ++ (a ++ (Statement.requireWord ++ (b ++ (['('] ++ c))))), k, by simp,
      .inr (hc k (by simp))⟩

/-- A specifier that cannot be mistaken, wherever it is quoted, for text around another one. -/
structure IsPlain (specifier : Text) : Prop where
  not_mem : ∀ q : Quote, q.char ∉ specifier
  not_opensImport : ¬ OpensImport specifier

theorem IsPlain.of_append {s t : Text} (h : IsPlain (s ++ t)) : IsPlain t where
  not_mem q hmem := h.not_mem q (List.mem_append_right s hmem)
  not_opensImport hopens := h.not_opensImport (hopens.append s)

theorem isPlain_of_all {specifier : Text}
    (h : (specifier.all fun c => !isQuote c && c != '(') = true) : IsPlain specifier := by
  have hall := List.all_eq_true.mp h
  constructor
  · intro q hmem
    have hq := hall _ hmem
    rw [isQuote_char] at hq
    contradiction
  · rintro ⟨x, a, b, c, -, -, -, rfl⟩
    simpa using hall '(' (by simp)

theorem Ending.ne_of_mem {ending : Ending} {c : Char} (h : c ∈ ending.text) :
    isQuote c = false ∧ c ≠ '}' ∧ c ≠ '\n' := by
  cases ending <;> simp only [Ending.text, List.mem_cons, List.not_mem_nil, or_false] at h <;>
    rcases h with rfl | rfl | rfl <;> decide

theorem Quote.wrap_inj {q q' : Quote} {body body' : Text} (h : q.wrap body = q'.wrap body') :
    q = q' ∧ body = body' := by
  obtain ⟨hchar, hrest⟩ := List.cons.inj h
  have hq : Quote.ofChar? q.char = some q' := Quote.ofChar?_eq_some_iff.mpr hchar
  rw [Quote.ofChar?_eq_some_iff.mpr rfl] at hq
  cases hq
  exact ⟨rfl, List.append_cancel_right hrest⟩

theorem Quote.not_mem_of_blank (q : Quote) {t : Text} (h : Blank t) : q.char ∉ t := by
  intro hmem
  have hblank := h _ hmem
  rw [(of_isQuote (isQuote_char q)).2] at hblank
  contradiction

theorem Quote.not_mem_of_names (q : Quote) {t : Text} (h : ∀ c ∈ t, isNameChar c = true) :
    q.char ∉ t := by
  intro hmem
  have hname := h _ hmem
  rw [(of_isQuote (isQuote_char q)).1] at hname
  contradiction

/-- What comes before the first place of a character, and what comes behind it. -/
theorem eq_of_not_mem {x x' y y' : Text} {c : Char} (h : x ++ c :: y = x' ++ c :: y')
    (hx : c ∉ x) (hx' : c ∉ x') : x = x' ∧ y = y' := by
  have hall {z : Text} (hz : c ∉ z) : ∀ a ∈ z, (a != c) = true := by
    intro a ha
    simpa using fun heq : a = c => hz (heq ▸ ha)
  have hstop (z : Text) : ∀ a ∈ (c :: z).head?, (a != c) = false := by simp
  obtain ⟨htake, hdrop⟩ := takeWhile_dropWhile_iff.mpr ⟨rfl, hall hx, hstop y⟩
  obtain ⟨htake', hdrop'⟩ := takeWhile_dropWhile_iff.mpr ⟨h, hall hx', hstop y'⟩
  exact ⟨htake.symm.trans htake', (List.cons.inj (hdrop.symm.trans hdrop')).2⟩

/-- What stands between the specifier of a statement and its end begins like no specifier. -/
theorem exists_head_of_blank {e : Text} (he : Blank e) {t : Text} :
    ∃ c rest, e ++ ([')'] ++ t) = c :: rest ∧ c ≠ '.' ∧ c ≠ '$' := by
  cases e with
  | nil => exact ⟨')', t, rfl, by decide, by decide⟩
  | cons c e =>
    have hc := he c List.mem_cons_self
    refine ⟨c, _, rfl, ?_, ?_⟩ <;> rintro rfl <;> contradiction

theorem Quote.not_mem_closing (q : Quote) {e : Text} (he : Blank e) : q.char ∉ e ++ [')'] := by
  have hparen : q.char ≠ ')' := by cases q <;> decide
  simp [q.not_mem_of_blank he, hparen]

/-- A binding is the same, or it is a braced list with a quote in it, before and after. -/
def Binding.Revised (b b' : Binding) : Prop :=
  b' = b ∨ ∃ inner inner', b = .braces inner ∧ b' = .braces inner' ∧
    (∃ c ∈ inner, isQuote c = true) ∧ ∃ c ∈ inner', isQuote c = true

theorem Binding.Revised.trans {b b' b'' : Binding} (h : b.Revised b') (h' : b'.Revised b'') :
    b.Revised b'' := by
  obtain rfl | ⟨inner, inner', rfl, rfl, hmark, hmark'⟩ := h
  · exact h'
  · obtain rfl | ⟨_, inner'', hsame, rfl, -, hmark''⟩ := h'
    · exact .inr ⟨inner, inner', rfl, rfl, hmark, hmark'⟩
    · exact .inr ⟨inner, inner'', rfl, rfl, hmark, hmark''⟩

/-- A statement, and the same with its specifier completed in some way. -/
structure Statement.Revised (s : Statement) (complete : Quote → Text → Text) (s' : Statement) :
    Prop where
  keyword : s'.keyword = s.keyword
  quote : s'.quote = s.quote
  specifier : s'.specifier = complete s.quote s.specifier
  binding : s.binding.Revised s'.binding

theorem Statement.Revised.trans {complete complete' : Quote → Text → Text}
    {s s' s'' : Statement} (h : s.Revised complete s') (h' : s'.Revised complete' s'') :
    s.Revised (fun q specifier => complete' q (complete q specifier)) s'' where
  keyword := h'.keyword.trans h.keyword
  quote := h'.quote.trans h.quote
  specifier := by rw [h'.specifier, h.quote, h.specifier]
  binding := h.binding.trans h'.binding

namespace PathFix

/-- The specifiers of fixes are local, and those considered here are plain. -/
structure Proper (f : PathFix) : Prop where
  plain : IsPlain f.specifier
  starts : ∃ c rest, f.specifier = c :: rest ∧ (c = '.' ∨ c = '$')

/-- A character that neither ends an occurrence nor begins an ending. -/
def Foreign (f : PathFix) (c : Char) : Prop := c ≠ f.quote.char ∧ c ≠ '.' ∧ c ≠ '/'

theorem foreign_of_blank (f : PathFix) {t : Text} (h : Blank t) : ∀ c ∈ t, f.Foreign c := by
  intro c hc
  have hblank := h c hc
  refine ⟨fun heq => f.quote.not_mem_of_blank h (heq ▸ hc), ?_, ?_⟩ <;> rintro rfl <;> contradiction

theorem foreign_of_names (f : PathFix) {t : Text} (h : ∀ c ∈ t, isNameChar c = true) :
    ∀ c ∈ t, f.Foreign c := by
  intro c hc
  have hname := h c hc
  refine ⟨fun heq => f.quote.not_mem_of_names h (heq ▸ hc), ?_, ?_⟩ <;> rintro rfl <;> contradiction

theorem foreign_opening (f : PathFix) {a b c d : Text} (ha : Blank a) (hb : Blank b) (hc : Blank c)
    (hd : Blank d) : ∀ k ∈ a ++ (['='] ++ (b ++ (Statement.requireWord ++ (c ++ (['('] ++ d))))),
      f.Foreign k := by
  have hword : ∀ k ∈ Statement.requireWord, isNameChar k = true :=
    List.all_eq_true.mp (by decide)
  have hequals : ∀ k ∈ ['='], f.Foreign k := by
    cases hq : f.quote <;> simp [Foreign, hq, Quote.char]
  have hparen : ∀ k ∈ ['('], f.Foreign k := by
    cases hq : f.quote <;> simp [Foreign, hq, Quote.char]
  simp only [List.forall_mem_append]
  exact ⟨f.foreign_of_blank ha, hequals, f.foreign_of_blank hb, f.foreign_of_names hword,
    f.foreign_of_blank hc, hparen, f.foreign_of_blank hd⟩

/-- A quoted specifier as it reads when the fix is applied. -/
def complete (f : PathFix) (q : Quote) (specifier : Text) : Text :=
  if q.wrap specifier = f.pattern then specifier ++ f.ending.text else specifier

/-- No statement begins in an ending or at the quote behind it. -/
theorem quiet_ending (f : PathFix) (before : Option Char) (t : Text) :
    Quiet before (f.ending.text ++ [f.quote.char]) t := by
  have hquote : isListChar f.quote.char = false ∧ f.quote.char ≠ '=' ∧ f.quote.char ≠ '{' := by
    cases f.quote <;> decide +kernel
  cases f.ending with
  | slash =>
    refine ⟨Import.at?_cons_of_isAlpha_eq_false rfl _ _, ?_⟩
    exact Quiet.of_isListChar (v := []) (by simp) hquote.1 hquote.2.1 hquote.2.2 t
  | extension =>
    refine ⟨Import.at?_cons_of_isAlpha_eq_false rfl _ _, ?_⟩
    have hending : ∀ c ∈ ['j', 's'], isListChar c = true := List.all_eq_true.mp (by decide)
    exact Quiet.of_isListChar hending hquote.1 hquote.2.1 hquote.2.2 t

/-- A text and what completing makes of it. Inside an occurrence of the quoted specifier, `pending`
is what is left of the specifier. -/
inductive Edits (f : PathFix) : (pending : Option Text) → (t t' : Text) → Prop where
  | nil : Edits f none [] []
  | kept {c : Char} {t t' : Text} (h : ¬ f.pattern <+: c :: t) (hrest : Edits f none t t') :
      Edits f none (c :: t) (c :: t')
  | opened {t t' : Text} (hrest : Edits f (some f.specifier) t t') :
      Edits f none (f.quote.char :: t) (f.quote.char :: t')
  | inside {c : Char} {u t t' : Text} (hrest : Edits f (some u) t t') :
      Edits f (some (c :: u)) (c :: t) (c :: t')
  | closed {t t' : Text} (hrest : Edits f none t t') :
      Edits f (some []) (f.quote.char :: t) (f.ending.text ++ f.quote.char :: t')

/-- Whether what is pending is plain. -/
def Pending (pending : Option Text) : Prop := ∀ u ∈ pending, IsPlain u

/-- What is left pending behind a text without the quote. -/
def Passes (pending : Option Text) (x : Text) (pending' : Option Text) : Prop :=
  pending = none ∧ pending' = none ∨ ∃ v, pending = some (x ++ v) ∧ pending' = some v

namespace Passes

theorem nil (pending : Option Text) : Passes pending [] pending := by
  cases pending with
  | none => exact .inl ⟨rfl, rfl⟩
  | some v => exact .inr ⟨v, rfl, rfl⟩

theorem eq_none {x : Text} {pending' : Option Text} (h : Passes none x pending') :
    pending' = none := by
  obtain ⟨-, hnone⟩ | ⟨v, hv, -⟩ := h
  · exact hnone
  · contradiction

theorem cons_none {c : Char} {x : Text} {pending' : Option Text} (h : Passes none x pending') :
    Passes none (c :: x) pending' := .inl ⟨rfl, h.eq_none⟩

theorem cons_some {c : Char} {u x : Text} {pending' : Option Text}
    (h : Passes (some u) x pending') : Passes (some (c :: u)) (c :: x) pending' := by
  obtain ⟨hnone, -⟩ | ⟨v, hv, hpending'⟩ := h
  · contradiction
  · cases hv
    exact .inr ⟨v, rfl, hpending'⟩

theorem pending {pending pending' : Option Text} {x : Text} (h : Passes pending x pending')
    (hpending : Pending pending) : Pending pending' := by
  obtain ⟨-, rfl⟩ | ⟨v, rfl, rfl⟩ := h
  · simp [Pending]
  · rintro _ ⟨⟩
    exact (hpending _ rfl).of_append

/-- Behind another quote nothing is pending. -/
theorem eq_none_of_quote {pending pending' : Option Text} {x : Text} {c : Char}
    (h : Passes pending x pending') (hpending : Pending pending) (hmem : c ∈ x)
    (hquote : isQuote c = true) : pending' = none := by
  obtain ⟨-, rfl⟩ | ⟨v, rfl, -⟩ := h
  · rfl
  · obtain ⟨q, rfl⟩ := exists_of_isQuote hquote
    exact absurd (List.mem_append_left v hmem) ((hpending _ rfl).not_mem q)

end Passes

namespace Edits

variable {f : PathFix} {pending : Option Text} {t t' : Text}

theorem inside_append (u : Text) (h : Edits f none t t') :
    Edits f (some u) (u ++ f.quote.char :: t) (u ++ (f.ending.text ++ f.quote.char :: t')) := by
  induction u with
  | nil => exact .closed h
  | cons c u ih => exact .inside ih

theorem apply (f : PathFix) (t : Text) : Edits f none t (f.patch.apply t) := by
  have hne : f.pattern ≠ [] := List.cons_ne_nil _ _
  unfold Patch.apply patch
  dsimp only
  induction t using occurrence_induction hne with
  | nil =>
    rw [replaceAll_nil f.replacement hne]
    exact .nil
  | found t ih =>
    rw [replaceAll_append f.replacement hne]
    have hopen := Edits.opened (inside_append f.specifier ih)
    simpa [pattern, replacement, Quote.wrap] using hopen
  | kept c t hc ih =>
    rw [replaceAll_cons f.replacement hne hc]
    exact .kept hc ih

/-! Passing text without quotes. -/

/-- Text without the quote is passed as it is, inside and outside of occurrences. -/
theorem of_append {x : Text} (h : Edits f pending (x ++ t) t') (hx : f.quote.char ∉ x) :
    ∃ pending' u, t' = x ++ u ∧ Edits f pending' t u ∧ Passes pending x pending' := by
  induction x generalizing pending t' with
  | nil => exact ⟨pending, t', rfl, h, Passes.nil pending⟩
  | cons c x ih =>
    obtain ⟨hc, hx⟩ := List.ne_and_not_mem_of_not_mem_cons hx
    cases h with
    | kept _ hrest =>
      obtain ⟨pending', u, rfl, hu, hpasses⟩ := ih hrest hx
      exact ⟨pending', u, rfl, hu, hpasses.cons_none⟩
    | opened _ => exact absurd rfl hc
    | inside hrest =>
      obtain ⟨pending', u, rfl, hu, hpasses⟩ := ih hrest hx
      exact ⟨pending', u, rfl, hu, hpasses.cons_some⟩
    | closed _ => exact absurd rfl hc

/-- Text that holds neither the quote nor the beginning of an ending was there before. -/
theorem to_append {x : Text} (h : Edits f pending t (x ++ t')) (hx : ∀ c ∈ x, f.Foreign c) :
    ∃ pending' u, t = x ++ u ∧ Edits f pending' u t' ∧ Passes pending x pending' := by
  induction x generalizing pending t with
  | nil => exact ⟨pending, t, rfl, h, Passes.nil pending⟩
  | cons c x ih =>
    obtain ⟨⟨hc, hdot, hslash⟩, hx⟩ := List.forall_mem_cons.mp hx
    generalize hall : c :: x ++ t' = all at h
    cases h with
    | nil => contradiction
    | kept _ hrest =>
      cases hall
      obtain ⟨pending', u, rfl, hu, hpasses⟩ := ih hrest hx
      exact ⟨pending', u, rfl, hu, hpasses.cons_none⟩
    | opened _ => exact absurd (List.cons.inj hall).1 hc
    | inside hrest =>
      cases hall
      obtain ⟨pending', u, rfl, hu, hpasses⟩ := ih hrest hx
      exact ⟨pending', u, rfl, hu, hpasses.cons_some⟩
    | closed _ =>
      cases hending : f.ending with
      | slash =>
        rw [hending] at hall
        exact absurd (List.cons.inj hall).1 hslash
      | extension =>
        rw [hending] at hall
        exact absurd (List.cons.inj hall).1 hdot

/-- Outside of occurrences nothing is put in before the next quote. -/
theorem to_append_none {x : Text} (h : Edits f none t (x ++ t')) (hx : f.quote.char ∉ x) :
    ∃ u, t = x ++ u ∧ Edits f none u t' := by
  induction x generalizing t with
  | nil => exact ⟨t, rfl, h⟩
  | cons c x ih =>
    obtain ⟨hc, hx⟩ := List.ne_and_not_mem_of_not_mem_cons hx
    cases h with
    | kept _ hrest =>
      obtain ⟨u, rfl, hu⟩ := ih hrest hx
      exact ⟨u, rfl, hu⟩
    | opened _ => exact absurd rfl hc

theorem to_pending {u : Text} (h : Edits f (some u) t t') :
    ∃ v v', t = u ++ f.quote.char :: v ∧ t' = u ++ (f.ending.text ++ f.quote.char :: v') ∧
      Edits f none v v' := by
  induction u generalizing t t' with
  | nil =>
    cases h with
    | closed hrest => exact ⟨_, _, rfl, rfl, hrest⟩
  | cons c u ih =>
    cases h with
    | inside hrest =>
      obtain ⟨v, v', rfl, rfl, hv⟩ := ih hrest
      exact ⟨v, v', rfl, rfl, hv⟩

/-- No occurrence reaches to the quote that opens the literal of a statement. -/
theorem eq_none_of_opensImport {opening : Text} {pending' : Option Text} {q : Quote}
    (h : Edits f pending' t t') (hhead : t.head? = some q.char ∨ t'.head? = some q.char)
    (hpasses : Passes pending opening pending') (hpending : Pending pending)
    (hopens : OpensImport opening) : pending' = none := by
  obtain ⟨-, hnone⟩ | ⟨v, rfl, rfl⟩ := hpasses
  · exact hnone
  · have hplain := hpending _ rfl
    cases v with
    | nil => exact absurd (by simpa using hopens) hplain.not_opensImport
    | cons c v =>
      cases h with
      | inside _ =>
        have hc : c = q.char := by simpa using hhead
        exact absurd (by simp [hc]) (hplain.not_mem q)

/-! Passing the parts of a statement. -/

section Statement

variable (hf : f.Proper)

include hf

/-- One character is passed; where it ends an occurrence, the ending comes before it. -/
theorem of_cons {c : Char} (h : Edits f pending (c :: t) t') (hpending : Pending pending) :
    ∃ x pending' u, t' = x ++ c :: u ∧ Edits f pending' t u ∧ Pending pending' ∧
      (x = [] ∨ x = f.ending.text ∧ c = f.quote.char) := by
  cases h with
  | kept _ hrest => exact ⟨[], _, _, rfl, hrest, hpending, .inl rfl⟩
  | opened hrest => exact ⟨[], _, _, rfl, hrest, by rintro _ ⟨⟩; exact hf.plain, .inl rfl⟩
  | inside hrest =>
    refine ⟨[], _, _, rfl, hrest, ?_, .inl rfl⟩
    rintro _ ⟨⟩
    exact (hpending _ rfl).of_append (s := [c])
  | closed hrest => exact ⟨_, _, _, rfl, hrest, by simp [Pending], .inr ⟨rfl, rfl⟩⟩

/-- A braced list is passed with its braces. What it quotes may be completed. -/
theorem of_braces {inner : Text} (h : Edits f pending (inner ++ '}' :: t) t')
    (hpending : Pending pending) (hinner : '}' ∉ inner) :
    ∃ inner' pending' u, t' = inner' ++ '}' :: u ∧ Edits f pending' t u ∧ Pending pending' ∧
      '}' ∉ inner' ∧ (inner ≠ [] → inner' ≠ []) ∧
      (inner' = inner ∨ f.quote.char ∈ inner ∧ f.quote.char ∈ inner') := by
  induction inner generalizing pending t' with
  | nil =>
    have hquote : f.quote.char ∉ ['}'] := by cases f.quote <;> decide
    obtain ⟨pending', u, rfl, hu, hpasses⟩ := h.of_append (x := ['}']) hquote
    exact ⟨[], pending', u, rfl, hu, hpasses.pending hpending, List.not_mem_nil, fun hne => hne,
      .inl rfl⟩
  | cons c inner ih =>
    obtain ⟨hc, hinner⟩ := List.ne_and_not_mem_of_not_mem_cons hinner
    obtain ⟨x, pending₁, u, rfl, hu, hpending₁, hx⟩ := h.of_cons hf hpending
    obtain ⟨inner', pending', v, rfl, hv, hpending', hbrace, -, hor⟩ := ih hu hpending₁ hinner
    have hend : '}' ∉ x := by
      rcases hx with rfl | ⟨rfl, -⟩
      · exact List.not_mem_nil
      · exact fun hmem => (Ending.ne_of_mem hmem).2.1 rfl
    refine ⟨x ++ c :: inner', pending', v, by simp, hv, hpending', by simp [hend, hc, hbrace],
      by simp, ?_⟩
    rcases hx with rfl | ⟨-, rfl⟩
    · rcases hor with rfl | ⟨hmem, hmem'⟩
      · exact .inl rfl
      · exact .inr ⟨List.mem_cons_of_mem _ hmem, List.mem_cons_of_mem _ hmem'⟩
    · exact .inr ⟨List.mem_cons_self, by simp⟩

omit hf in
/-- An occurrence that is open ends with the next quote. -/
theorem of_pending {u v : Text} (h : Edits f (some u) (v ++ f.quote.char :: t) t')
    (hu : f.quote.char ∉ u) (hv : f.quote.char ∉ v) :
    v = u ∧ ∃ w, t' = u ++ (f.ending.text ++ f.quote.char :: w) ∧ Edits f none t w := by
  induction u generalizing v t' with
  | nil =>
    cases v with
    | nil =>
      cases h with
      | closed hrest => exact ⟨rfl, _, rfl, hrest⟩
    | cons c v =>
      cases h with
      | closed hrest => exact absurd List.mem_cons_self hv
  | cons a u ih =>
    obtain ⟨ha, hu⟩ := List.ne_and_not_mem_of_not_mem_cons hu
    cases v with
    | nil =>
      cases h with
      | inside hrest => exact absurd rfl ha
    | cons c v =>
      cases h with
      | inside hrest =>
        obtain ⟨rfl, w, rfl, hw⟩ := ih hrest hu (List.ne_and_not_mem_of_not_mem_cons hv).2
        exact ⟨rfl, w, rfl, hw⟩

/-- No occurrence begins at a quote with something else behind it than a local specifier. -/
theorem of_quote {q : Quote} (h : Edits f none (q.char :: t) t')
    (ht : ∃ c rest, t = c :: rest ∧ c ≠ '.' ∧ c ≠ '$') :
    ∃ u, t' = q.char :: u ∧ Edits f none t u := by
  obtain ⟨c, rest, rfl, hdot, halias⟩ := ht
  generalize hq : q.char = a at h
  cases h with
  | kept _ hrest => exact ⟨_, rfl, hrest⟩
  | opened hrest =>
    obtain ⟨d, more, hspecifier, hd⟩ := hf.starts
    rw [hspecifier] at hrest
    cases hrest with
    | inside => exact absurd hd (by simp [hdot, halias])

theorem of_literal {q : Quote} {specifier : Text} (h : Edits f none (q.wrap specifier ++ t) t')
    (hplain : IsPlain specifier) (ht : ∃ c rest, t = c :: rest ∧ c ≠ '.' ∧ c ≠ '$') :
    ∃ u, t' = q.wrap (f.complete q specifier) ++ u ∧ Edits f none t u := by
  have hquote := hplain.not_mem f.quote
  have hcut : q.wrap specifier ++ t = q.char :: (specifier ++ q.char :: t) := by
    simp [Quote.wrap]
  by_cases hpattern : q.wrap specifier = f.pattern
  · obtain ⟨rfl, rfl⟩ := Quote.wrap_inj hpattern
    have hprefix : f.pattern <+: f.quote.char :: (f.specifier ++ f.quote.char :: t) :=
      ⟨t, by simp [pattern, Quote.wrap]⟩
    rw [hcut] at h
    generalize hq : f.quote.char = a at h
    cases h with
    | kept hnot => exact absurd (hq ▸ hprefix) hnot
    | opened hrest =>
      obtain ⟨-, w, rfl, hw⟩ := hrest.of_pending hquote hquote
      refine ⟨w, ?_, hw⟩
      simp [complete, pattern, Quote.wrap]
  · rw [complete, if_neg hpattern]
    rw [hcut] at h
    generalize hq : q.char = a at h
    cases h with
    | kept _ hrest =>
      obtain ⟨pending', u, rfl, hu, hpasses⟩ := hrest.of_append hquote
      obtain rfl := hpasses.eq_none
      rw [← hq] at hu
      obtain ⟨v, rfl, hv⟩ := hu.of_quote hf ht
      exact ⟨v, by simp [Quote.wrap, hq], hv⟩
    | opened hrest =>
      obtain ⟨heq, -⟩ := hrest.of_pending (hf.plain.not_mem f.quote) hquote
      refine absurd ?_ hpattern
      rw [pattern, Quote.wrap, Quote.wrap, heq, hq]

/-- What follows the binding of a statement is passed with its specifier completed. -/
theorem of_tail {q : Quote} {specifier a b c d e : Text}
    (h : Edits f pending (a ++ (['='] ++ (b ++ (Statement.requireWord ++ (c ++ (['('] ++
      (d ++ (q.wrap specifier ++ (e ++ ([')'] ++ t)))))))))) t')
    (hpending : Pending pending) (hplain : IsPlain specifier) (ha : Blank a) (hb : Blank b)
    (hc : Blank c) (hd : Blank d) (he : Blank e) :
    ∃ u, t' = a ++ (['='] ++ (b ++ (Statement.requireWord ++ (c ++ (['('] ++
      (d ++ (q.wrap (f.complete q specifier) ++ (e ++ ([')'] ++ u))))))))) ∧ Edits f none t u := by
  obtain ⟨_, u₂, rfl, h₂, hpasses₂⟩ := of_append
    (x := a ++ (['='] ++ (b ++ (Statement.requireWord ++ (c ++ (['('] ++ d))))))
    (by simpa using h) fun hmem => (f.foreign_opening ha hb hc hd _ hmem).1 rfl
  obtain rfl := h₂.eq_none_of_opensImport (q := q) (.inl (by simp [Quote.wrap])) hpasses₂ hpending
    ⟨a, b, c, d, hb, hc, hd, rfl⟩
  obtain ⟨u₃, rfl, h₃⟩ := h₂.of_literal hf hplain (exists_head_of_blank he)
  obtain ⟨_, u, rfl, hu, hpasses⟩ := of_append (x := e ++ [')']) (by simpa using h₃)
    (f.quote.not_mem_closing he)
  obtain rfl := hpasses.eq_none
  exact ⟨u, by simp, hu⟩

/-- Where a statement stands, one stands afterwards, with its specifier completed. -/
theorem of_written {s : Statement} {w : Text} (hw : s.Written w)
    (h : Edits f pending (w ++ t) t') (hpending : Pending pending)
    (hplain : IsPlain s.specifier) :
    ∃ s' w' u, t' = w' ++ u ∧ Edits f none t u ∧ s'.Written w' ∧ s.Revised f.complete s' := by
  cases hw with
  | @intro keyword binding quote specifier a b c d e g hproper hne hquote hline hsome ha hb hc hd
      he hg =>
    -- the completed specifier is one that can be quoted
    have hspecifier : f.complete quote specifier ≠ [] ∧ quote.char ∉ f.complete quote specifier ∧
        '\n' ∉ f.complete quote specifier := by
      have hending (k : Char) (hk : k = '\n' ∨ isQuote k = true) : k ∉ f.ending.text := by
        intro hmem
        obtain ⟨hmark, -, hbreak⟩ := Ending.ne_of_mem hmem
        rcases hk with rfl | hk
        · exact hbreak rfl
        · rw [hmark] at hk
          contradiction
      unfold complete
      split
      · simp [hne, hquote, hline, hending _ (.inl rfl), hending _ (.inr (isQuote_char quote))]
      · exact ⟨hne, hquote, hline⟩
    have hkeyword : f.quote.char ∉ keyword.text ++ a := by
      have hname := f.quote.not_mem_of_names fun _ => Keyword.isNameChar_of_mem (k := keyword)
      simp [hname, f.quote.not_mem_of_blank ha]
    obtain ⟨hne', hquote', hline'⟩ := hspecifier
    have hwritten (binding' : Binding) (hproper' : binding'.Proper) :
        Statement.Written ⟨keyword, binding', quote, f.complete quote specifier⟩ _ :=
      .intro hproper' hne' hquote' hline' hsome ha hb hc hd he hg
    cases binding with
    | name id =>
      have hid : f.quote.char ∉ keyword.text ++ a ++ id := by
        rw [List.mem_append, not_or]
        exact ⟨hkeyword, f.quote.not_mem_of_names hproper.2⟩
      obtain ⟨pending₁, u₁, rfl, h₁, hpasses⟩ := of_append (x := keyword.text ++ a ++ id)
        (by simpa [Binding.text] using h) hid
      obtain ⟨u, rfl, hu⟩ := of_tail hf h₁ (hpasses.pending hpending) hplain hb hc hd he hg
      exact ⟨_, _, u, by simp [Binding.text], hu, hwritten (.name id) hproper, rfl, rfl, rfl,
        .inl rfl⟩
    | braces inner =>
      have hopen : f.quote.char ∉ keyword.text ++ a ++ ['{'] := by
        have hbrace : f.quote.char ≠ '{' := by cases f.quote <;> decide
        rw [List.mem_append, not_or]
        exact ⟨hkeyword, by simpa using hbrace⟩
      obtain ⟨pending₁, u₁, rfl, h₁, hpasses⟩ := of_append (x := keyword.text ++ a ++ ['{'])
        (by simpa [Binding.text] using h) hopen
      obtain ⟨inner', pending₂, u₂, rfl, h₂, hpending₂, hbrace, hsome', hor⟩ :=
        of_braces hf h₁ (hpasses.pending hpending) hproper.2
      obtain ⟨u, rfl, hu⟩ := of_tail hf h₂ hpending₂ hplain hb hc hd he hg
      refine ⟨_, _, u, by simp [Binding.text], hu,
        hwritten (.braces inner') ⟨hsome' hproper.1, hbrace⟩, rfl, rfl, rfl, ?_⟩
      rcases hor with rfl | ⟨hmem, hmem'⟩
      · exact .inl rfl
      · exact .inr ⟨inner, inner', rfl, rfl, ⟨_, hmem, isQuote_char _⟩, _, hmem', isQuote_char _⟩

/-! The way back. -/

/-- Text up to a character that is neither the quote nor in an ending was there before, without
some endings. -/
theorem to_stop {stop : Char} {inner' : Text} (hquote : stop ≠ f.quote.char)
    (hending : stop ∉ f.ending.text) (h : Edits f pending t (inner' ++ stop :: t'))
    (hpending : Pending pending) (hinner : stop ∉ inner') :
    ∃ inner pending' u, t = inner ++ stop :: u ∧ Edits f pending' u t' ∧ Pending pending' ∧
      (isQuote stop = true → pending' = none) ∧ (∀ c ∈ inner, c ∈ inner') ∧
      (inner' ≠ [] → inner ≠ []) := by
  induction t generalizing pending inner' with
  | nil =>
    generalize hall : inner' ++ stop :: t' = all at h
    cases h with
    | nil => simp at hall
  | cons c t ih =>
    obtain ⟨x, pending₁, u, hcut, hu, hpending₁, hx⟩ := h.of_cons hf hpending
    cases inner' with
    | nil =>
      have hx : x = [] := by
        rcases hx with hx | ⟨rfl, -⟩
        · exact hx
        · cases hE : f.ending.text with
          | nil => rfl
          | cons a rest =>
            rw [hE] at hcut hending
            exact absurd (List.cons.inj hcut).1 (List.ne_of_not_mem_cons hending)
      subst hx
      obtain ⟨rfl, rfl⟩ := List.cons.inj hcut
      obtain ⟨pending', v, hv, hedits, hpasses⟩ :=
        h.of_append (x := [stop]) (by simpa using hquote.symm)
      obtain rfl : t' = v := (List.cons.inj hv).2
      exact ⟨[], pending', t, rfl, hedits, hpasses.pending hpending,
        hpasses.eq_none_of_quote hpending List.mem_cons_self, by simp, fun hne => hne⟩
    | cons a inner' =>
      obtain ⟨y, hy, rfl⟩ : ∃ y, a :: inner' = x ++ c :: y ∧ u = y ++ stop :: t' := by
        rcases hx with rfl | ⟨rfl, rfl⟩
        · obtain ⟨rfl, rfl⟩ := List.cons.inj hcut
          exact ⟨inner', rfl, rfl⟩
        · have hstop : stop ∉ f.ending.text ++ [f.quote.char] := by simp [hending, hquote]
          have hsplit : a :: inner' ++ stop :: t' = f.ending.text ++ [f.quote.char] ++ u := by
            simpa using hcut
          rcases List.append_eq_append_iff.mp hsplit with ⟨y, hy, hrest⟩ | ⟨y, hy, hrest⟩
          · cases y with
            | nil => exact ⟨[], by simpa using hy.symm, by simpa using hrest.symm⟩
            | cons b y =>
              obtain ⟨rfl, -⟩ := List.cons.inj hrest
              exact absurd (by simp [hy]) hstop
          · exact ⟨y, by simpa using hy, hrest⟩
      rw [hy] at hinner ⊢
      have hy : stop ∉ y := fun hmem => hinner (by simp [hmem])
      obtain ⟨inner, pending', v, rfl, hv, hpending', hmark, hsub, -⟩ := ih hu hpending₁ hy
      refine ⟨c :: inner, pending', v, rfl, hv, hpending', hmark, ?_, by simp⟩
      intro b hb
      rcases List.mem_cons.mp hb with rfl | hb
      · simp
      · simp [hsub b hb]

/-- A literal was there before, perhaps with another specifier. -/
theorem to_literal {q : Quote} {specifier' : Text} (h : Edits f none t (q.wrap specifier' ++ t'))
    (hne : specifier' ≠ []) (hquote : q.char ∉ specifier') (hline : '\n' ∉ specifier')
    (ht' : ∃ c rest, t' = c :: rest ∧ c ≠ '.' ∧ c ≠ '$') :
    ∃ specifier u, t = q.wrap specifier ++ u ∧ Edits f none u t' ∧ specifier ≠ [] ∧
      q.char ∉ specifier ∧ '\n' ∉ specifier := by
  have hcut : q.wrap specifier' ++ t' = q.char :: (specifier' ++ q.char :: t') := by
    simp [Quote.wrap]
  rw [hcut] at h
  by_cases hq : q = f.quote
  · subst hq
    cases h with
    | kept _ hrest =>
      obtain ⟨u, rfl, hu⟩ := hrest.to_append_none hquote
      generalize hall : f.quote.char :: t' = all at hu
      cases hu with
      | nil => contradiction
      | kept _ hrest =>
        obtain ⟨rfl, rfl⟩ := List.cons.inj hall
        exact ⟨specifier', _, by simp [Quote.wrap], hrest, hne, hquote, hline⟩
      | opened hrest =>
        -- behind the closing quote stands no local specifier
        obtain ⟨-, rfl⟩ := List.cons.inj hall
        obtain ⟨v, v', -, hv', -⟩ := hrest.to_pending
        obtain ⟨d, more, hspecifier, hd⟩ := hf.starts
        obtain ⟨c, rest, hc, hdot, halias⟩ := ht'
        rw [hspecifier, hc] at hv'
        obtain ⟨rfl, -⟩ := List.cons.inj hv'
        exact absurd hd (by simp [hdot, halias])
    | opened hrest =>
      obtain ⟨v, v', rfl, hv', hv⟩ := hrest.to_pending
      have hend : f.quote.char ∉ f.specifier ++ f.ending.text := by
        rw [List.mem_append, not_or]
        refine ⟨hf.plain.not_mem f.quote, fun hmem => ?_⟩
        have hmark := (Ending.ne_of_mem hmem).1
        rw [isQuote_char] at hmark
        contradiction
      have hcuts : specifier' ++ f.quote.char :: t' =
          (f.specifier ++ f.ending.text) ++ f.quote.char :: v' := by simpa using hv'
      obtain ⟨rfl, rfl⟩ := eq_of_not_mem hcuts hquote hend
      obtain ⟨d, more, hspecifier, -⟩ := hf.starts
      refine ⟨f.specifier, v, by simp [Quote.wrap], hv, by simp [hspecifier],
        hf.plain.not_mem f.quote, fun hmem => hline (List.mem_append_left _ hmem)⟩
  · have hchar : q.char ≠ f.quote.char := by
      intro hchar
      have hsame := Quote.ofChar?_eq_some_iff.mpr hchar
      rw [Quote.ofChar?_eq_some_iff.mpr rfl, Option.some.injEq] at hsame
      exact hq hsame
    have hending : q.char ∉ f.ending.text := by
      intro hmem
      have hmark := (Ending.ne_of_mem hmem).1
      rw [isQuote_char] at hmark
      contradiction
    generalize hall : q.char = a at h
    cases h with
    | opened _ => exact absurd hall hchar
    | kept _ hrest =>
      rw [← hall] at hrest
      obtain ⟨specifier, pending', u, rfl, hu, -, hnone, hsub, hsome⟩ :=
        hrest.to_stop hf hchar hending (by simp [Pending]) hquote
      obtain rfl := hnone (isQuote_char q)
      exact ⟨specifier, u, by simp [Quote.wrap, hall], hu, hsome hne,
        fun hmem => hquote (hsub _ (hall ▸ hmem)), fun hmem => hline (hsub _ hmem)⟩

/-- What follows the binding of a statement was there before, perhaps with another specifier. -/
theorem to_tail {q : Quote} {specifier' a b c d e : Text}
    (h : Edits f pending t (a ++ (['='] ++ (b ++ (Statement.requireWord ++ (c ++ (['('] ++
      (d ++ (q.wrap specifier' ++ (e ++ ([')'] ++ t')))))))))))
    (hpending : Pending pending) (hne : specifier' ≠ []) (hquote : q.char ∉ specifier')
    (hline : '\n' ∉ specifier') (ha : Blank a) (hb : Blank b) (hc : Blank c) (hd : Blank d)
    (he : Blank e) :
    ∃ specifier u, t = a ++ (['='] ++ (b ++ (Statement.requireWord ++ (c ++ (['('] ++
      (d ++ (q.wrap specifier ++ (e ++ ([')'] ++ u))))))))) ∧ specifier ≠ [] ∧
      q.char ∉ specifier ∧ '\n' ∉ specifier := by
  obtain ⟨_, u₂, rfl, h₂, hpasses⟩ := to_append
    (x := a ++ (['='] ++ (b ++ (Statement.requireWord ++ (c ++ (['('] ++ d))))))
    (by simpa using h) (f.foreign_opening ha hb hc hd)
  obtain rfl := h₂.eq_none_of_opensImport (q := q) (.inr (by simp [Quote.wrap])) hpasses hpending
    ⟨a, b, c, d, hb, hc, hd, rfl⟩
  obtain ⟨specifier, u₃, rfl, h₃, hspecifier⟩ :=
    h₂.to_literal hf hne hquote hline (exists_head_of_blank he)
  obtain ⟨u, rfl, -⟩ :=
    to_append_none (x := e ++ [')']) (by simpa using h₃) (f.quote.not_mem_closing he)
  exact ⟨specifier, u, by simp, hspecifier⟩

/-- Where a statement stands afterwards, one stood before. -/
theorem to_written {s' : Statement} {w' : Text} (hw' : s'.Written w')
    (h : Edits f pending t (w' ++ t')) (hpending : Pending pending) :
    ∃ s : Statement, ∃ w u, s.Written w ∧ t = w ++ u := by
  cases hw' with
  | @intro keyword binding quote specifier' a b c d e g hproper hne hquote hline hsome ha hb hc hd
      he hg =>
    have hkeyword : ∀ k ∈ keyword.text ++ a, f.Foreign k := by
      rw [List.forall_mem_append]
      exact ⟨f.foreign_of_names fun _ => Keyword.isNameChar_of_mem (k := keyword),
        f.foreign_of_blank ha⟩
    cases binding with
    | name id =>
      obtain ⟨pending₁, u₁, rfl, h₁, hpasses⟩ := to_append (x := keyword.text ++ a ++ id)
        (by simpa [Binding.text] using h)
        (List.forall_mem_append.mpr ⟨hkeyword, f.foreign_of_names hproper.2⟩)
      obtain ⟨specifier, u, rfl, hne, hquote, hline⟩ :=
        h₁.to_tail hf (hpasses.pending hpending) hne hquote hline hb hc hd he hg
      refine ⟨⟨keyword, .name id, quote, specifier⟩, _, u,
        .intro hproper hne hquote hline hsome ha hb hc hd he hg, ?_⟩
      simp [Binding.text]
    | braces inner' =>
      have hbrace : f.Foreign '{' := by cases hq : f.quote <;> simp [Foreign, hq, Quote.char]
      have hclose : '}' ≠ f.quote.char := by cases f.quote <;> decide
      have hending : '}' ∉ f.ending.text := fun hmem => (Ending.ne_of_mem hmem).2.1 rfl
      obtain ⟨pending₁, u₁, rfl, h₁, hpasses⟩ := to_append (x := keyword.text ++ a ++ ['{'])
        (by simpa [Binding.text] using h)
        (List.forall_mem_append.mpr ⟨hkeyword, by simpa using hbrace⟩)
      obtain ⟨inner, pending₂, u₂, rfl, h₂, hpending₂, -, hsub, hinner⟩ :=
        h₁.to_stop hf hclose hending (hpasses.pending hpending) hproper.2
      obtain ⟨specifier, u, rfl, hne, hquote, hline⟩ :=
        h₂.to_tail hf hpending₂ hne hquote hline hb hc hd he hg
      have hproper' : (Binding.braces inner).Proper :=
        ⟨hinner hproper.1, fun hmem => hproper.2 (hsub _ hmem)⟩
      refine ⟨⟨keyword, .braces inner, quote, specifier⟩, _, u,
        .intro hproper' hne hquote hline hsome ha hb hc hd he hg, ?_⟩
      simp [Binding.text]

/-! The imports of a text. -/

/-- The imports of a text are found again where they were, with their specifiers completed. -/
theorem scans {before : Option Char} {ws : List Text} (h : Scans before t ws)
    (hedits : Edits f pending t t') (hpending : Pending pending)
    (hplain : ∀ s : Statement, ∀ w ∈ ws, s.Written w → IsPlain s.specifier) :
    ∃ ws', Scans before t' ws' ∧ List.Forall₂ (fun w w' => ∃ s s' : Statement,
      s.Written w ∧ s'.Written w' ∧ s.Revised f.complete s') ws ws' := by
  induction h generalizing pending t' with
  | nil =>
    cases hedits with
    | nil => exact ⟨[], .nil, .nil⟩
  | @skip before c t ws hat _ ih =>
    obtain ⟨x, pending', u, rfl, hu, hpending', hx⟩ := hedits.of_cons hf hpending
    obtain ⟨ws', hws', hrevised⟩ := ih hu hpending' hplain
    refine ⟨ws', ?_, hrevised⟩
    rcases hx with rfl | ⟨rfl, rfl⟩
    · refine .skip ?_ hws'
      -- a statement that begins here now would have begun here before
      rw [Option.eq_none_iff_forall_ne_some]
      rintro ⟨s', rest'⟩ hat'
      obtain ⟨hbefore, w', hw', hcut⟩ := Import.at?_eq_some_iff.mp hat'
      rw [List.nil_append, hcut] at hedits
      obtain ⟨s, w, rest, hw, hold⟩ := hedits.to_written hf hw' hpending
      rw [Import.at?_eq_some_iff.mpr ⟨hbefore, w, hw, hold⟩] at hat
      contradiction
    · have hquiet := quiet_ending f before u
      have hcut : f.ending.text ++ f.quote.char :: u = (f.ending.text ++ [f.quote.char]) ++ u := by
        simp
      rw [hcut]
      exact hquiet.scans (by simpa using hws')
  | @found before s w t ws hw hbefore _ ih =>
    obtain ⟨s', w', u, rfl, hu, hw', hrevises⟩ :=
      hedits.of_written hf hw hpending (hplain s w List.mem_cons_self hw)
    obtain ⟨ws', hws', hrevised⟩ := ih hu (by simp [Pending])
      fun s w hmem => hplain s w (List.mem_cons_of_mem _ hmem)
    exact ⟨w' :: ws', .found hw' hbefore hws', .cons ⟨s, s', hw, hw', hrevises⟩ hrevised⟩

end Statement
end Edits
end PathFix
end Namespacer
