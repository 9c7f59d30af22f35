import Namespacer.Import.Destructuring
import Namespacer.Name.Basic
import Namespacer.Proofs.Import.Scan
import Namespacer.Proofs.Text.Replace

/-! Putting a name in place of braces all over a text, and what that does to the import statements
in it: those that stay statements keep their order. -/
namespace Namespacer

open Text

/-- Characters that stand before the equals sign of a statement, outside braces. -/
def isListChar (c : Char) : Bool := isNameChar c || c == ',' || isBlank c

theorem isListChar_of_isNameChar {c : Char} (h : isNameChar c = true) : isListChar c = true := by
  simp [isListChar, h]

theorem isListChar_of_isBlank {c : Char} (h : isBlank c = true) : isListChar c = true := by
  simp [isListChar, h]

theorem isNameChar_of_isIdentifierChar {c : Char} (h : isIdentifierChar c = true) :
    isNameChar c = true := by
  simp only [isIdentifierChar, Bool.or_eq_true] at h
  rcases h with h | h <;> simp [isNameChar, h]

theorem isIdentifierChar_of_isIdentifier {t : Text} (h : isIdentifier t = true) :
    ∀ c ∈ t, isIdentifierChar c = true := by
  cases t with
  | nil => simp
  | cons c t =>
    simp only [isIdentifier, isIdentifierStart, Bool.and_eq_true, Bool.or_eq_true,
      List.all_eq_true] at h
    intro a ha
    rcases List.mem_cons.mp ha with rfl | ha
    · rcases h.1 with h | h <;> simp [isIdentifierChar, Char.isAlphanum, h]
    · exact h.2 a ha

theorem isNameChar_of_isIdentifier {t : Text} (h : isIdentifier t = true) :
    ∀ c ∈ t, isNameChar c = true := fun c hc =>
  isNameChar_of_isIdentifierChar (isIdentifierChar_of_isIdentifier h c hc)

theorem ne_nil_of_isIdentifier {t : Text} (h : isIdentifier t = true) : t ≠ [] := by
  rintro rfl
  contradiction

theorem not_mem_of_isIdentifier {t : Text} {c : Char} (h : isIdentifier t = true)
    (hc : isNameChar c = false) : c ∉ t := by
  intro hmem
  rw [isNameChar_of_isIdentifier h c hmem] at hc
  contradiction

theorem any_getLast?_of_isIdentifier {t : Text} (h : isIdentifier t = true)
    (before : Option Char) : (t.getLast?.or before).any isNameChar = true := by
  cases hlast : t.getLast? with
  | none => exact absurd (List.getLast?_eq_none_iff.mp hlast) (ne_nil_of_isIdentifier h)
  | some a => exact isNameChar_of_isIdentifier h a (List.mem_of_getLast? hlast)

/-! Where no statement can begin. -/

/-- Before the equals sign of a statement there are only names, commas, white space and braces. -/
theorem Statement.Written.exists_first {s : Statement} {w : Text} (h : s.Written w) :
    ∃ x c y, w = x ++ c :: y ∧ (∀ a ∈ x, isListChar a = true) ∧ (c = '=' ∨ c = '{') := by
  cases h with
  | @intro keyword binding _ _ blank blank' _ _ _ _ hproper _ _ _ _ hblank hblank' =>
    have hkeyword : ∀ a ∈ keyword.text ++ blank, isListChar a = true := by
      intro a ha
      rcases List.mem_append.mp ha with ha | ha
      · exact isListChar_of_isNameChar (Keyword.isNameChar_of_mem ha)
      · exact isListChar_of_isBlank (hblank a ha)
    cases binding with
    | braces inner =>
      exact ⟨keyword.text ++ blank, '{', _, (List.append_assoc _ _ _).symm, hkeyword, .inr rfl⟩
    | name id =>
      have hbefore : ∀ a ∈ keyword.text ++ blank ++ (id ++ blank'), isListChar a = true := by
        intro a ha
        rcases List.mem_append.mp ha with ha | ha
        · exact hkeyword a ha
        · rcases List.mem_append.mp ha with ha | ha
          · exact isListChar_of_isNameChar (hproper.2 a ha)
          · exact isListChar_of_isBlank (hblank' a ha)
      exact ⟨_, '=', _, by rw [List.append_assoc, List.append_assoc, List.append_assoc]; rfl,
        hbefore, .inl rfl⟩

theorem eq_of_first {x x' y y' : Text} {c c' : Char} (h : x ++ c :: y = x' ++ c' :: y')
    (hx : ∀ a ∈ x, isListChar a = true) (hc : isListChar c = false)
    (hx' : ∀ a ∈ x', isListChar a = true) (hc' : isListChar c' = false) : c = c' := by
  have hdrop : (x ++ c :: y).dropWhile isListChar = c :: y :=
    (takeWhile_dropWhile_iff.mpr ⟨rfl, hx, by simpa using hc⟩).2
  have hdrop' : (x ++ c :: y).dropWhile isListChar = c' :: y' :=
    (takeWhile_dropWhile_iff.mpr ⟨h, hx', by simpa using hc'⟩).2
  exact (List.cons.inj (hdrop.symm.trans hdrop')).1

theorem Statement.read?_eq_none {x y : Text} {c : Char} (hx : ∀ a ∈ x, isListChar a = true)
    (hc : isListChar c = false) (hequals : c ≠ '=') (hbrace : c ≠ '{') :
    Statement.read? (x ++ c :: y) = none := by
  rw [Option.eq_none_iff_forall_ne_some]
  rintro ⟨s, rest⟩ h
  obtain ⟨w, hw, hcut⟩ := Statement.read?_eq_some_iff.mp h
  obtain ⟨x', c', y', rfl, hx', hc'⟩ := hw.exists_first
  have hout : isListChar c' = false := by rcases hc' with rfl | rfl <;> rfl
  have heq : c = c' := by
    rw [List.append_assoc, List.cons_append] at hcut
    exact eq_of_first hcut hx hc hx' hout
  rcases hc' with rfl | rfl
  · exact hequals heq
  · exact hbrace heq

namespace Import

theorem at?_of_read?_eq_none {t : Text} (h : Statement.read? t = none) (before : Option Char) :
    at? before t = none := by
  cases t with
  | nil => rfl
  | cons c t => simp [at?, h]

theorem at?_cons_of_isAlpha_eq_false {c : Char} (h : c.isAlpha = false) (before : Option Char)
    (t : Text) : at? before (c :: t) = none := by
  simp [at?, startsWord, h]

end Import

/-- Whether no statement begins in `v`, which stands between `before` and `t`. -/
def Quiet (before : Option Char) : (v t : Text) → Prop
  | [], _ => True
  | c :: v, t => Import.at? before (c :: (v ++ t)) = none ∧ Quiet (some c) v t

namespace Quiet

theorem statementTexts_eq {before : Option Char} {v t : Text} (h : Quiet before v t) :
    statementTexts before (v ++ t) = statementTexts (v.getLast?.or before) t := by
  induction v generalizing before with
  | nil => rfl
  | cons c v ih =>
    rw [List.cons_append, statementTexts_cons h.1, ih h.2, getLast?_cons_or]

theorem isFlat_eq {before : Option Char} {v t : Text} (h : Quiet before v t) :
    isFlat before (v ++ t) = isFlat (v.getLast?.or before) t := by
  induction v generalizing before with
  | nil => rfl
  | cons c v ih =>
    rw [List.cons_append, isFlat, h.1, Option.all_none, Bool.true_and, ih h.2, getLast?_cons_or]

theorem append {before : Option Char} {v v' t : Text} (h : Quiet before v (v' ++ t))
    (h' : Quiet (v.getLast?.or before) v' t) : Quiet before (v ++ v') t := by
  induction v generalizing before with
  | nil => simpa using h'
  | cons c v ih =>
    rw [getLast?_cons_or] at h'
    exact ⟨by simpa using h.1, ih h.2 h'⟩

theorem scans {before : Option Char} {v t : Text} {ws : List Text} (h : Quiet before v t)
    (hrest : Scans (v.getLast?.or before) t ws) : Scans before (v ++ t) ws := by
  induction v generalizing before with
  | nil => simpa using hrest
  | cons c v ih =>
    rw [getLast?_cons_or] at hrest
    exact .skip h.1 (ih h.2 hrest)

theorem of_isNameChar {before : Option Char} {v : Text} (hbefore : before.any isNameChar = true)
    (hv : ∀ c ∈ v, isNameChar c = true) (t : Text) : Quiet before v t := by
  induction v generalizing before with
  | nil => trivial
  | cons c v ih =>
    obtain ⟨hc, hv⟩ := List.forall_mem_cons.mp hv
    exact ⟨Import.at?_of_isNameChar hbefore _, ih (by simpa using hc) hv⟩

theorem of_isIdentifier {before : Option Char} {v t : Text} (hv : isIdentifier v = true)
    (h : Import.at? before (v ++ t) = none) : Quiet before v t := by
  cases v with
  | nil => trivial
  | cons c v =>
    obtain ⟨hc, hrest⟩ := List.forall_mem_cons.mp (isNameChar_of_isIdentifier hv)
    exact ⟨h, of_isNameChar (by simpa using hc) hrest t⟩

/-- No statement begins where its equals sign or its braces would come too late. -/
theorem of_isListChar {before : Option Char} {v : Text} {c : Char}
    (hv : ∀ a ∈ v, isListChar a = true) (hc : isListChar c = false) (hequals : c ≠ '=')
    (hbrace : c ≠ '{') (t : Text) : Quiet before (v ++ [c]) t := by
  induction v generalizing before with
  | nil =>
    have hread : Statement.read? ([] ++ c :: t) = none :=
      Statement.read?_eq_none hv hc hequals hbrace
    exact ⟨Import.at?_of_read?_eq_none hread before, trivial⟩
  | cons a v ih =>
    have hread : Statement.read? ((a :: v) ++ c :: t) = none :=
      Statement.read?_eq_none hv hc hequals hbrace
    refine ⟨Import.at?_of_read?_eq_none ?_ before, ih (List.forall_mem_cons.mp hv).2⟩
    simpa using hread

end Quiet

/-- Where a text is edited so that statements at its front come only from statements, the statement
at the front is edited or lost. -/
theorem firstText_edited {before before' : Option Char} {t u : Text} {edit : Text → Text}
    (hbefore : before'.any isNameChar = before.any isNameChar)
    (hback : ∀ (s' : Statement) (w' rest' : Text), s'.Written w' → u = w' ++ rest' →
      ∃ s : Statement, ∃ w rest, s.Written w ∧ t = w ++ rest ∧ w' = edit w)
    (hforth : ∀ (s : Statement) (w rest : Text), s.Written w → t = w ++ rest →
      ∃ rest', u = edit w ++ rest') :
    firstText before' u = ((firstText before t).map edit).filter Statement.isWhole := by
  cases hat : Import.at? before t with
  | none =>
    have hnone : Import.at? before' u = none := by
      rw [Option.eq_none_iff_forall_ne_some]
      rintro ⟨s', rest'⟩ hat'
      obtain ⟨hname, w', hw', hu⟩ := Import.at?_eq_some_iff.mp hat'
      obtain ⟨s, w, rest, hw, ht, -⟩ := hback s' w' rest' hw' hu
      rw [Import.at?_eq_some_iff.mpr ⟨hbefore ▸ hname, w, hw, ht⟩] at hat
      contradiction
    rw [firstText_of_at?_eq_none hat, firstText_of_at?_eq_none hnone]
    rfl
  | some r =>
    obtain ⟨s, rest⟩ := r
    obtain ⟨hname, w, hw, rfl⟩ := Import.at?_eq_some_iff.mp hat
    obtain ⟨rest', rfl⟩ := hforth s w rest hw rfl
    rw [firstText_of_written hname hw, List.map_singleton]
    by_cases hwhole : Statement.isWhole (edit w) = true
    · obtain ⟨s', hw'⟩ := Statement.isWhole_iff.mp hwhole
      rw [firstText_of_written (hbefore.trans hname) hw']
      simp [hwhole]
    · have hnone : Import.at? before' (edit w ++ rest') = none := by
        rw [Option.eq_none_iff_forall_ne_some]
        rintro ⟨s', rest''⟩ hat'
        obtain ⟨-, w', hw', hu⟩ := Import.at?_eq_some_iff.mp hat'
        obtain ⟨s₁, w₁, rest₁, hw₁, hcut, rfl⟩ := hback s' w' rest'' hw' hu
        have heq : w₁ = w := hw₁.eq_of_append hw hcut.symm
        exact hwhole (Statement.isWhole_iff.mpr ⟨s', heq ▸ hw'⟩)
      rw [firstText_of_at?_eq_none hnone]
      simp [hwhole]

/-- A flat text stays flat at its front where statements there come from statements, and what stands
behind them is edited as the rest is. -/
theorem isFlat_edited {before before' : Option Char} {c : Char} {t u : Text} {edit : Text → Text}
    (hflat : isFlat before (c :: t) = true) (hrest : isFlat (some c) u = true)
    (hedit : statementTexts (some c) u =
      ((statementTexts (some c) t).map edit).filter Statement.isWhole)
    (hback : ∀ s' rest', Import.at? before' (c :: u) = some (s', rest') →
      ∃ s rest, Import.at? before (c :: t) = some (s, rest) ∧
        statementTexts (some ')') rest' =
          ((statementTexts (some ')') rest).map edit).filter Statement.isWhole) :
    isFlat before' (c :: u) = true := by
  rw [isFlat, hrest, Bool.and_true, Option.all_eq_true]
  rintro ⟨s', rest'⟩ hat'
  obtain ⟨s, rest, hat, hbehind⟩ := hback s' rest' hat'
  rw [isFlat, hat, Bool.and_eq_true, Option.all_some, beq_iff_eq] at hflat
  rw [beq_iff_eq, hedit, hbehind, hflat.1]

/-- A relation between a text and the edited one, each with what stands before it: statements are
edited one by one, and where none begins there is a step over text in which none does. -/
structure Simulates (edit : Text → Text)
    (E : (before before' : Option Char) → (t u : Text) → Prop) : Prop where
  found : ∀ {before before' : Option Char} {s : Statement} {w rest u : Text},
    E before before' (w ++ rest) u → s.Written w → before.any isNameChar = false →
    ∃ q rest', u = q ++ (edit w ++ rest') ∧ Quiet before' q (edit w ++ rest') ∧
      (q.getLast?.or before').any isNameChar = false ∧ E (some ')') (some ')') rest rest'
  skip : ∀ {before before' : Option Char} {a : Char} {t u : Text},
    E before before' (a :: t) u → Import.at? before (a :: t) = none →
    ∃ v t' q u', a :: t = v ++ t' ∧ v ≠ [] ∧ Quiet before v t' ∧ u = q ++ u' ∧ Quiet before' q u' ∧
      E (v.getLast?.or before) (q.getLast?.or before') t' u'

/-- As long as the imports of a text stay statements, the imports of the edited text are these. -/
theorem Simulates.scans {edit : Text → Text} {E : Option Char → Option Char → Text → Text → Prop}
    (hsim : Simulates edit E) {before before' : Option Char} {t u : Text} {ws rest : List Text}
    (hE : E before before' t u) (h : Scans before t (ws ++ rest))
    (hwhole : ∀ w ∈ ws, Statement.isWhole (edit w) = true) :
    ∃ rest', Scans before' u (ws.map edit ++ rest') := by
  induction hn : t.length using Nat.strongRecOn generalizing before before' t u ws with
  | _ n ih =>
    cases ws with
    | nil => exact Scans.exists_scans before' u
    | cons w ws =>
      cases hat : Import.at? before t with
      | some r =>
        obtain ⟨s, t'⟩ := r
        obtain ⟨hbefore, w₁, hw₁, rfl⟩ := Import.at?_eq_some_iff.mp hat
        obtain ⟨ws₁, hws₁⟩ := Scans.exists_scans (some ')') t'
        obtain ⟨rfl, rfl⟩ := List.cons.inj (h.unique (.found hw₁ hbefore hws₁))
        obtain ⟨q, u', rfl, hquiet, hlast, hE'⟩ := hsim.found hE hw₁ hbefore
        have hlen : t'.length < n := by
          obtain ⟨c, v, rfl, -⟩ := hw₁.exists_eq_cons
          rw [← hn, List.length_append, List.length_cons]
          omega
        obtain ⟨hfirst, hwhole⟩ := List.forall_mem_cons.mp hwhole
        obtain ⟨s', hs'⟩ := Statement.isWhole_iff.mp hfirst
        obtain ⟨rest', hrest'⟩ := ih t'.length hlen hE' hws₁ hwhole rfl
        exact ⟨rest', hquiet.scans (.found hs' hlast hrest')⟩
      | none =>
        cases t with
        | nil => exact absurd (h.unique .nil) (by simp)
        | cons a t =>
          obtain ⟨v, t', q, u', ht, hv, hquiet, rfl, hquiet', hE'⟩ := hsim.skip hE hat
          have hlen : t'.length < n := by
            rw [← hn, ht, List.length_append]
            have hpos := List.length_pos_iff.mpr hv
            omega
          obtain ⟨ws₁, hws₁⟩ := Scans.exists_scans (v.getLast?.or before) t'
          rw [ht] at h
          obtain rfl := h.unique (hquiet.scans hws₁)
          obtain ⟨rest', hrest'⟩ := ih t'.length hlen hE' hws₁ hwhole rfl
          exact ⟨rest', hquiet'.scans hrest'⟩

/-! One name in place of braces. -/

/-- The braces hold names, commas and white space, and the symbols are identifiers. -/
structure Destructuring.Proper (d : Destructuring) : Prop where
  binding : ∃ inner, d.binding = '{' :: (inner ++ ['}']) ∧ ∀ a ∈ inner, isListChar a = true
  symbols : ∀ symbol ∈ d.symbols, isIdentifier symbol = true

/-- A destructuring import and the name that is to take the place of its braces. -/
structure Collapse where
  record : Destructuring
  name : Text
  deriving DecidableEq

namespace Collapse

structure Proper (c : Collapse) : Prop extends c.record.Proper where
  name : isIdentifier c.name = true

def bound (c : Collapse) (t : Text) : Text := replaceAll c.record.binding c.name t

/-- Whether binding the name makes no statement at the front of a text, and takes none away behind
the braces there. -/
def isClearAt (c : Collapse) (t : Text) : Bool :=
  ((Statement.read? (c.bound t)).all fun new =>
      (Statement.read? t).any fun old => c.bound old.2 == new.2) &&
    (after? c.record.binding t).all fun rest => (Statement.read? rest).isNone

def isClear (c : Collapse) : Text → Bool
  | [] => true
  | a :: t => c.isClearAt (a :: t) && c.isClear t

theorem isClear_append {c : Collapse} {s t : Text} (h : c.isClear (s ++ t) = true) :
    c.isClear t = true := by
  induction s with
  | nil => exact h
  | cons a s ih =>
    rw [List.cons_append, isClear, Bool.and_eq_true] at h
    exact ih h.2

theorem isClearAt_of_isClear {c : Collapse} {t : Text} (ht : t ≠ []) (h : c.isClear t = true) :
    c.isClearAt t = true := by
  cases t with
  | nil => contradiction
  | cons a t =>
    rw [isClear, Bool.and_eq_true] at h
    exact h.1

/-- In a clear text, a statement at the front comes from one that was there. -/
theorem exists_of_isClearAt {c : Collapse} {t w' rest' : Text} {s' : Statement}
    (h : c.isClearAt t = true) (hw' : s'.Written w') (hu : c.bound t = w' ++ rest') :
    ∃ s : Statement, ∃ w rest, s.Written w ∧ t = w ++ rest ∧ c.bound rest = rest' := by
  rw [isClearAt, Bool.and_eq_true] at h
  have hread : Statement.read? (c.bound t) = some (s', rest') :=
    Statement.read?_eq_some_iff.mpr ⟨w', hw', hu⟩
  rw [hread, Option.all_some, Option.any_eq_true] at h
  obtain ⟨⟨s, rest⟩, hold, hrest⟩ := h.1
  obtain ⟨w, hw, ht⟩ := Statement.read?_eq_some_iff.mp hold
  exact ⟨s, w, rest, hw, ht, by simpa using hrest⟩

section Proper

variable {c : Collapse} (hc : c.Proper)

include hc

theorem Proper.not_mem {a : Char} (ha : isListChar a = false) (hopen : a ≠ '{')
    (hclose : a ≠ '}') : a ∉ c.record.binding := by
  obtain ⟨inner, heq, hinner⟩ := hc.binding
  rw [heq]
  intro hmem
  have hin : a ∈ inner := by simpa [hopen, hclose] using hmem
  rw [hinner a hin] at ha
  contradiction

theorem Proper.ne_nil : c.record.binding ≠ [] := by
  obtain ⟨inner, heq, -⟩ := hc.binding
  simp [heq]

theorem Proper.bound_append {w : Text} {s : Statement} (hw : s.Written w) (rest : Text) :
    c.bound (w ++ rest) = c.bound w ++ c.bound rest := by
  obtain ⟨v, rfl⟩ := hw.exists_eq_append
  have hparen : ')' ∉ c.record.binding := hc.not_mem rfl (by decide) (by decide)
  have hend := replaceAll_append_cons c.name hc.ne_nil hparen v []
  rw [replaceAll_nil c.name hc.ne_nil] at hend
  unfold bound
  rw [List.append_assoc, List.singleton_append, hend,
    replaceAll_append_cons c.name hc.ne_nil hparen, List.append_assoc, List.singleton_append]

theorem Proper.quiet_binding (before : Option Char) (t : Text) :
    Quiet before c.record.binding t := by
  obtain ⟨inner, heq, hinner⟩ := hc.binding
  rw [heq]
  exact ⟨Import.at?_cons_of_isAlpha_eq_false rfl before _,
    .of_isListChar hinner rfl (by decide) (by decide) t⟩

theorem Proper.getLast?_binding (before : Option Char) :
    c.record.binding.getLast?.or before = some '}' := by
  obtain ⟨inner, heq, -⟩ := hc.binding
  rw [heq, getLast?_cons_or]
  simp

/-- What stands before a text may be a name instead of braces if no statement begins there. -/
def Comparable (before before' : Option Char) (t : Text) : Prop :=
  before' = before ∨ before'.any isNameChar = true ∧ Import.at? before t = none

omit hc in
theorem comparable_behind_name {before' : Option Char} {t : Text}
    (h : c.isClearAt (c.record.binding ++ t) = true) (hname : before'.any isNameChar = true) :
    Comparable (some '}') before' t := by
  rw [isClearAt, Bool.and_eq_true, after?_eq_some_iff.mpr rfl, Option.all_some,
    Option.isNone_iff_eq_none] at h
  exact .inr ⟨hname, Import.at?_of_read?_eq_none h.2 _⟩

theorem Proper.firstText_bound {before before' : Option Char} {t : Text}
    (hclear : c.isClearAt t = true) (hbefore : Comparable before before' t) :
    firstText before' (c.bound t) =
      ((firstText before t).map c.bound).filter Statement.isWhole := by
  rcases hbefore with rfl | ⟨hname, hnone⟩
  · refine firstText_edited rfl (fun s' w' rest' hw' hu => ?_) (fun s w rest hw ht => ?_)
    · obtain ⟨s, w, rest, hw, ht, hrest⟩ := exists_of_isClearAt hclear hw' hu
      refine ⟨s, w, rest, hw, ht, ?_⟩
      rw [ht, hc.bound_append hw, hrest] at hu
      exact (List.append_cancel_right hu).symm
    · exact ⟨c.bound rest, by rw [ht, hc.bound_append hw]⟩
  · rw [firstText_of_at?_eq_none hnone, firstText_of_at?_eq_none (Import.at?_of_isNameChar hname _)]
    rfl

theorem Proper.quiet_name {before : Option Char} {t : Text}
    (hclear : c.isClearAt (c.record.binding ++ t) = true) :
    Quiet before c.name (c.bound t) := by
  have hbound : c.bound (c.record.binding ++ t) = c.name ++ c.bound t :=
    replaceAll_append c.name hc.ne_nil t
  apply Quiet.of_isIdentifier hc.name
  rw [Option.eq_none_iff_forall_ne_some]
  rintro ⟨s', rest'⟩ hat
  obtain ⟨-, w', hw', hu⟩ := Import.at?_eq_some_iff.mp hat
  obtain ⟨s, w, rest, hw, ht, -⟩ := exists_of_isClearAt hclear hw' (hbound.trans hu)
  obtain ⟨inner, hbraces, -⟩ := hc.binding
  obtain ⟨a, v, rfl, ha⟩ := hw.exists_eq_cons
  rw [hbraces, List.cons_append, List.cons_append] at ht
  rw [← (List.cons.inj ht).1] at ha
  contradiction

/-- Binding the name edits the statements of a text one by one, or makes an end of them. -/
theorem Proper.statementTexts_bound {before before' : Option Char} {t : Text}
    (hclear : c.isClear t = true) (hbefore : Comparable before before' t) :
    statementTexts before' (c.bound t) =
      ((statementTexts before t).map c.bound).filter Statement.isWhole := by
  induction t using occurrence_induction hc.ne_nil generalizing before before' with
  | nil => simp [bound, statementTexts, hc.ne_nil]
  | found t ih =>
    have hat := isClearAt_of_isClear (by simp [hc.ne_nil]) hclear
    have hbound : c.bound (c.record.binding ++ t) = c.name ++ c.bound t :=
      replaceAll_append c.name hc.ne_nil t
    rw [hbound, (hc.quiet_name hat).statementTexts_eq,
      (hc.quiet_binding before t).statementTexts_eq, hc.getLast?_binding]
    exact ih (isClear_append hclear)
      (comparable_behind_name hat (any_getLast?_of_isIdentifier hc.name before'))
  | kept a t ha ih =>
    have hbound : c.bound (a :: t) = a :: c.bound t := replaceAll_cons c.name hc.ne_nil ha
    have hfirst := hc.firstText_bound (isClearAt_of_isClear (by simp) hclear) hbefore
    have hrest := ih (isClear_append (s := [a]) hclear) (.inl (rfl : some a = some a))
    rw [hbound] at hfirst ⊢
    rw [statementTexts, statementTexts, hfirst, hrest, List.map_append, List.filter_append]

theorem Proper.simulates_bound : Simulates c.bound fun before before' t u =>
    c.isClear t = true ∧ Comparable before before' t ∧ u = c.bound t where
  found := by
    rintro before before' s w rest _ ⟨hclear, hbefore, rfl⟩ hw hname
    have hat : Import.at? before (w ++ rest) = some (s, rest) :=
      Import.at?_eq_some_iff.mpr ⟨hname, w, hw, rfl⟩
    have hsame : before' = before := by
      rcases hbefore with rfl | ⟨-, hnone⟩
      · rfl
      · rw [hat] at hnone
        contradiction
    refine ⟨[], c.bound rest, hc.bound_append hw rest, trivial, ?_, isClear_append hclear, .inl rfl,
      rfl⟩
    rw [hsame]
    exact hname
  skip := by
    rintro before before' a t _ ⟨hclear, hbefore, rfl⟩ hnone
    have hat := isClearAt_of_isClear (List.cons_ne_nil a t) hclear
    by_cases hocc : c.record.binding <+: a :: t
    · obtain ⟨t', ht⟩ := hocc
      rw [← ht] at hclear hat ⊢
      exact ⟨_, t', c.name, c.bound t', rfl, hc.ne_nil, hc.quiet_binding before t',
        replaceAll_append c.name hc.ne_nil t', hc.quiet_name hat, isClear_append hclear,
        hc.getLast?_binding before ▸
          comparable_behind_name hat (any_getLast?_of_isIdentifier hc.name before'), rfl⟩
    · have hbound : c.bound (a :: t) = a :: c.bound t := replaceAll_cons c.name hc.ne_nil hocc
      have hfirst := hc.firstText_bound hat hbefore
      rw [firstText_of_at?_eq_none hnone, hbound] at hfirst
      exact ⟨[a], t, [a], c.bound t, rfl, List.cons_ne_nil a [], ⟨hnone, trivial⟩, hbound,
        ⟨at?_eq_none_of_firstText hfirst, trivial⟩, isClear_append (s := [a]) hclear, .inl rfl, rfl⟩

theorem Proper.isFlat_bound {before before' : Option Char} {t : Text}
    (hclear : c.isClear t = true) (hbefore : Comparable before before' t)
    (hflat : isFlat before t = true) : isFlat before' (c.bound t) = true := by
  induction t using occurrence_induction hc.ne_nil generalizing before before' with
  | nil => simp [bound, isFlat, hc.ne_nil]
  | found t ih =>
    have hat := isClearAt_of_isClear (by simp [hc.ne_nil]) hclear
    have hbound : c.bound (c.record.binding ++ t) = c.name ++ c.bound t :=
      replaceAll_append c.name hc.ne_nil t
    rw [(hc.quiet_binding before t).isFlat_eq, hc.getLast?_binding] at hflat
    rw [hbound, (hc.quiet_name hat).isFlat_eq]
    exact ih (isClear_append hclear)
      (comparable_behind_name hat (any_getLast?_of_isIdentifier hc.name before')) hflat
  | kept a t ha ih =>
    have hbound : c.bound (a :: t) = a :: c.bound t := replaceAll_cons c.name hc.ne_nil ha
    have hclear' : c.isClear t = true := isClear_append (s := [a]) hclear
    have hrest := ih hclear' (.inl (rfl : some a = some a)) (isFlat_cons hflat)
    rw [hbound]
    refine isFlat_edited hflat hrest (hc.statementTexts_bound hclear' (.inl rfl))
      fun s' rest' hat' => ?_
    obtain ⟨hname, w', hw', hu⟩ := Import.at?_eq_some_iff.mp hat'
    obtain ⟨s, w, rest, hw, ht, rfl⟩ :=
      exists_of_isClearAt (isClearAt_of_isClear (by simp) hclear) hw' (hbound.trans hu)
    have hsame : before' = before := by
      rcases hbefore with rfl | ⟨hbad, -⟩
      · rfl
      · rw [hbad] at hname
        contradiction
    have hclear₁ : c.isClear rest = true := isClear_append (ht ▸ hclear)
    exact ⟨s, rest, Import.at?_eq_some_iff.mpr ⟨hsame ▸ hname, w, hw, ht⟩,
      hc.statementTexts_bound hclear₁ (.inl rfl)⟩

end Proper
end Collapse
end Namespacer
