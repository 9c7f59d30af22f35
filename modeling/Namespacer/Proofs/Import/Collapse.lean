import Namespacer.Proofs.Import.Qualify

/-! Collapsing imports one after another. Every collapse edits the whole text; the imports that the
text has afterwards are those it had before, each edited by itself, as far as they still are
imports. -/
namespace Namespacer

open Text

/-- Edits that give nothing back may be sorted out at the end. -/
theorem filter_map_filter_map {p : Text → Bool} {f g : Text → Text}
    (h : ∀ v, p (g v) = true → p v = true) (ws : List Text) :
    (((ws.map f).filter p).map g).filter p = (ws.map fun w => g (f w)).filter p := by
  induction ws with
  | nil => rfl
  | cons w ws ih =>
    by_cases hw : p (f w) = true
    · by_cases hg : p (g (f w)) = true <;> simp_all
    · have hg : p (g (f w)) ≠ true := fun hg => hw (h _ hg)
      simp_all

/-! Several symbols of one import. -/

def qualifyAll (name : Text) (symbols : List Text) (t : Text) : Text :=
  symbols.foldl (fun t symbol => qualify name symbol t) t

/-- `qualifyAll` in the text of an import, which has a keyword in front. -/
def qualifyAllWithin (name : Text) (symbols : List Text) (w : Text) : Text :=
  symbols.foldl (fun w symbol => qualifyFrom name symbol 0 w) w

@[simp] theorem qualifyAll_nil (name t : Text) : qualifyAll name [] t = t := rfl

@[simp] theorem qualifyAll_cons (name symbol : Text) (symbols : List Text) (t : Text) :
    qualifyAll name (symbol :: symbols) t = qualifyAll name symbols (qualify name symbol t) := rfl

@[simp] theorem qualifyAllWithin_cons (name symbol : Text) (symbols : List Text) (w : Text) :
    qualifyAllWithin name (symbol :: symbols) w =
      qualifyAllWithin name symbols (qualifyFrom name symbol 0 w) := rfl

section Symbols

variable {name : Text} (hname : isIdentifier name = true)

include hname

theorem inserted_qualifyFrom {symbol : Text} (hsymbol : isIdentifier symbol = true) (w : Text) :
    Inserted w (qualifyFrom name symbol 0 w) := by
  rw [qualifyFrom_eq_qualifyAfter hsymbol all_opensUse_dot]
  exact inserted_qualifyAfter hname hsymbol (some '.') w

theorem isWhole_of_isWhole_qualifyAllWithin {symbols : List Text}
    (hsymbols : ∀ symbol ∈ symbols, isIdentifier symbol = true) {w : Text}
    (h : Statement.isWhole (qualifyAllWithin name symbols w) = true) :
    Statement.isWhole w = true := by
  induction symbols generalizing w with
  | nil => exact h
  | cons symbol symbols ih =>
    obtain ⟨hsymbol, hsymbols⟩ := List.forall_mem_cons.mp hsymbols
    obtain ⟨s', hw'⟩ := Statement.isWhole_iff.mp (ih hsymbols h)
    exact Statement.isWhole_iff.mpr ((inserted_qualifyFrom hname hsymbol w).exists_written hw')

theorem statementTexts_qualifyAll {symbols : List Text}
    (hsymbols : ∀ symbol ∈ symbols, isIdentifier symbol = true) (t : Text) :
    statementTexts none (qualifyAll name symbols t) =
      ((statementTexts none t).map (qualifyAllWithin name symbols)).filter Statement.isWhole := by
  induction symbols generalizing t with
  | nil =>
    have hall : (statementTexts none t).filter Statement.isWhole = statementTexts none t :=
      List.filter_eq_self.mpr fun w hw => isWhole_of_mem_statementTexts hw
    have hid : qualifyAllWithin name [] = id := rfl
    rw [qualifyAll_nil, hid, List.map_id, hall]
  | cons symbol symbols ih =>
    obtain ⟨hsymbol, hsymbols⟩ := List.forall_mem_cons.mp hsymbols
    have hback : ∀ v, Statement.isWhole (qualifyAllWithin name symbols v) = true →
        Statement.isWhole v = true := fun v => isWhole_of_isWhole_qualifyAllWithin hname hsymbols
    rw [qualifyAll_cons, ih hsymbols, qualify_eq_qualifyAfter hsymbol,
      statementTexts_qualifyAfter hname hsymbol, filter_map_filter_map hback]
    rfl

theorem isFlat_qualifyAll {symbols : List Text}
    (hsymbols : ∀ symbol ∈ symbols, isIdentifier symbol = true) {t : Text}
    (h : isFlat none t = true) : isFlat none (qualifyAll name symbols t) = true := by
  induction symbols generalizing t with
  | nil => exact h
  | cons symbol symbols ih =>
    obtain ⟨hsymbol, hsymbols⟩ := List.forall_mem_cons.mp hsymbols
    rw [qualifyAll_cons, qualify_eq_qualifyAfter hsymbol]
    exact ih hsymbols (isFlat_qualifyAfter hname hsymbol h)

theorem scans_qualifyAll {symbols : List Text}
    (hsymbols : ∀ symbol ∈ symbols, isIdentifier symbol = true) {t : Text} {ws rest : List Text}
    (h : Scans none t (ws ++ rest))
    (hwhole : ∀ w ∈ ws, Statement.isWhole (qualifyAllWithin name symbols w) = true) :
    ∃ rest', Scans none (qualifyAll name symbols t)
      (ws.map (qualifyAllWithin name symbols) ++ rest') := by
  induction symbols generalizing t ws rest with
  | nil =>
    have hid : qualifyAllWithin name [] = id := rfl
    rw [hid, List.map_id]
    exact ⟨rest, h⟩
  | cons symbol symbols ih =>
    obtain ⟨hsymbol, hsymbols⟩ := List.forall_mem_cons.mp hsymbols
    have hnext : ∀ w ∈ ws, Statement.isWhole (qualifyFrom name symbol 0 w) = true :=
      fun w hw => isWhole_of_isWhole_qualifyAllWithin hname hsymbols (hwhole w hw)
    obtain ⟨rest₁, h₁⟩ := (simulates_qualifyAfter hname hsymbol).scans ⟨rfl, rfl⟩ h hnext
    rw [← qualify_eq_qualifyAfter hsymbol] at h₁
    obtain ⟨rest', h'⟩ := ih hsymbols h₁ (List.forall_mem_map.mpr hwhole)
    rw [List.map_map] at h'
    exact ⟨rest', h'⟩

theorem count_qualifyAllWithin {symbols : List Text}
    (hsymbols : ∀ symbol ∈ symbols, isIdentifier symbol = true) {a : Char}
    (ha : isNameChar a = false) (hdot : a ≠ '.') (w : Text) :
    (qualifyAllWithin name symbols w).count a = w.count a := by
  induction symbols generalizing w with
  | nil => rfl
  | cons symbol symbols ih =>
    obtain ⟨hsymbol, hsymbols⟩ := List.forall_mem_cons.mp hsymbols
    rw [qualifyAllWithin_cons, ih hsymbols, (inserted_qualifyFrom hname hsymbol w).count_eq ha hdot]

theorem count_dot_qualifyAllWithin_le {symbols : List Text}
    (hsymbols : ∀ symbol ∈ symbols, isIdentifier symbol = true) (w : Text) :
    w.count '.' ≤ (qualifyAllWithin name symbols w).count '.' := by
  induction symbols generalizing w with
  | nil => exact Nat.le_refl _
  | cons symbol symbols ih =>
    obtain ⟨hsymbol, hsymbols⟩ := List.forall_mem_cons.mp hsymbols
    exact Nat.le_trans (inserted_qualifyFrom hname hsymbol w).count_dot_le
      (ih hsymbols (qualifyFrom name symbol 0 w))

omit hname in
theorem qualifyAllWithin_eq_self {symbols : List Text} {w : Text}
    (h : ∀ symbol ∈ symbols, usesBare symbol w = false) : qualifyAllWithin name symbols w = w := by
  induction symbols with
  | nil => rfl
  | cons symbol symbols ih =>
    obtain ⟨hsymbol, hsymbols⟩ := List.forall_mem_cons.mp h
    rw [qualifyAllWithin_cons, qualifyFrom_of_not_usesBare hsymbol, ih hsymbols]

theorem not_usesBare_of_count_dot {symbols : List Text}
    (hsymbols : ∀ symbol ∈ symbols, isIdentifier symbol = true) {w : Text}
    (h : (qualifyAllWithin name symbols w).count '.' = w.count '.') :
    ∀ symbol ∈ symbols, usesBare symbol w = false := by
  induction symbols with
  | nil => simp
  | cons symbol symbols ih =>
    obtain ⟨hsymbol, hsymbols⟩ := List.forall_mem_cons.mp hsymbols
    have hle := count_dot_qualifyAllWithin_le hname hsymbols (qualifyFrom name symbol 0 w)
    rw [qualifyAllWithin_cons] at h
    have hnot : usesBare symbol w = false := by
      rw [← Bool.not_eq_true]
      intro huse
      have hlt := count_dot_qualifyFrom hname hsymbol huse
      omega
    rw [qualifyFrom_of_not_usesBare hnot] at h
    exact List.forall_mem_cons.mpr ⟨hnot, ih hsymbols h⟩

end Symbols

/-! One import collapsed all over a text. -/

/-- Whether collapsing an import would change nothing in the text of another one. -/
def Destructuring.LeavesAlone (d : Destructuring) (w : Text) : Prop :=
  ¬ d.binding <:+: w ∧ ∀ symbol ∈ d.symbols, usesBare symbol w = false

instance (d : Destructuring) (w : Text) : Decidable (d.LeavesAlone w) :=
  inferInstanceAs (Decidable (_ ∧ _))

namespace Collapse

def applied (c : Collapse) (t : Text) : Text := qualifyAll c.name c.record.symbols (c.bound t)

/-- What becomes of the text of an import. -/
def within (c : Collapse) (w : Text) : Text :=
  qualifyAllWithin c.name c.record.symbols (c.bound w)

theorem collapse_eq (d : Destructuring) (file name t : Text) :
    d.collapse file name t =
      if hasWord name t then .error (.nameInText name file)
      else .ok ((⟨d, name⟩ : Collapse).applied t) := rfl

section Proper

variable {c : Collapse} (hc : c.Proper)

include hc

/-- Imports that stay statements are found again, up to the first one that does not. -/
theorem Proper.exists_importTexts_applied {t : Text} (hclear : c.isClear t = true)
    {ws rest : List Text} (h : importTexts t = ws ++ rest)
    (hwhole : ∀ w ∈ ws, Statement.isWhole (c.within w) = true) :
    ∃ rest', importTexts (c.applied t) = ws.map c.within ++ rest' := by
  have hscans : Scans none t (ws ++ rest) := h ▸ scans_importTexts t
  have hnext : ∀ w ∈ ws, Statement.isWhole (c.bound w) = true :=
    fun w hw => isWhole_of_isWhole_qualifyAllWithin hc.name hc.symbols (hwhole w hw)
  obtain ⟨rest₁, h₁⟩ := hc.simulates_bound.scans ⟨hclear, .inl rfl, rfl⟩ hscans hnext
  obtain ⟨rest', h'⟩ := scans_qualifyAll hc.name hc.symbols h₁ (List.forall_mem_map.mpr hwhole)
  rw [List.map_map] at h'
  exact ⟨rest', h'.importTexts_eq⟩

theorem Proper.isFlat_applied {t : Text} (hclear : c.isClear t = true)
    (hflat : isFlat none t = true) : isFlat none (c.applied t) = true :=
  isFlat_qualifyAll hc.name hc.symbols (hc.isFlat_bound hclear (.inl rfl) hflat)

theorem Proper.importTexts_applied {t : Text} (hclear : c.isClear t = true)
    (hflat : isFlat none t = true) :
    importTexts (c.applied t) = ((importTexts t).map c.within).filter Statement.isWhole := by
  have hback : ∀ v, Statement.isWhole (qualifyAllWithin c.name c.record.symbols v) = true →
      Statement.isWhole v = true := fun v => isWhole_of_isWhole_qualifyAllWithin hc.name hc.symbols
  rw [importTexts_of_isFlat (hc.isFlat_applied hclear hflat), importTexts_of_isFlat hflat, applied,
    statementTexts_qualifyAll hc.name hc.symbols, hc.statementTexts_bound hclear (.inl rfl),
    filter_map_filter_map hback]
  rfl

theorem Proper.count_brace_name : c.name.count '{' = 0 :=
  List.count_eq_zero.mpr (not_mem_of_isIdentifier hc.name rfl)

theorem Proper.count_brace_binding : c.record.binding.count '{' = 1 := by
  obtain ⟨inner, heq, hinner⟩ := hc.binding
  have hzero : inner.count '{' = 0 := by
    rw [List.count_eq_zero]
    intro hmem
    have hchar := hinner '{' hmem
    contradiction
  simp [heq, hzero]

theorem Proper.count_dot_bound (w : Text) : (c.bound w).count '.' = w.count '.' := by
  apply count_replaceAll_eq hc.ne_nil
  rw [List.count_eq_zero.mpr (not_mem_of_isIdentifier hc.name rfl),
    List.count_eq_zero.mpr (hc.not_mem rfl (by decide) (by decide))]

theorem Proper.count_brace_bound_le (w : Text) : (c.bound w).count '{' ≤ w.count '{' := by
  apply count_replaceAll_le hc.ne_nil
  rw [hc.count_brace_name]
  exact Nat.zero_le _

theorem Proper.count_brace_bound_lt {w : Text} (h : c.record.binding <:+: w) :
    (c.bound w).count '{' < w.count '{' := by
  refine count_replaceAll_lt hc.ne_nil ?_ h
  rw [hc.count_brace_name, hc.count_brace_binding]
  exact Nat.one_pos

theorem Proper.count_brace_within (w : Text) : (c.within w).count '{' = (c.bound w).count '{' :=
  count_qualifyAllWithin hc.name hc.symbols rfl (by decide) (c.bound w)

theorem Proper.count_brace_within_le (w : Text) : (c.within w).count '{' ≤ w.count '{' := by
  rw [hc.count_brace_within]
  exact hc.count_brace_bound_le w

theorem Proper.count_dot_within_le (w : Text) : w.count '.' ≤ (c.within w).count '.' := by
  rw [← hc.count_dot_bound w]
  exact count_dot_qualifyAllWithin_le hc.name hc.symbols (c.bound w)

/-- Where no dot is added, at most the braces were replaced. -/
theorem Proper.within_eq_bound {w : Text} (hdot : (c.within w).count '.' = w.count '.') :
    c.within w = c.bound w ∧ ∀ symbol ∈ c.record.symbols, usesBare symbol (c.bound w) = false := by
  have hbare := not_usesBare_of_count_dot hc.name hc.symbols
    (hdot.trans (hc.count_dot_bound w).symm)
  exact ⟨qualifyAllWithin_eq_self hbare, hbare⟩

theorem Proper.within_eq_self {w : Text} (h : c.record.LeavesAlone w) : c.within w = w := by
  have hbound : c.bound w = w := replaceAll_of_not_infix c.name hc.ne_nil h.1
  rw [within, hbound, qualifyAllWithin_eq_self h.2]

/-- Where no dot is added and no brace lost, nothing was to be done. -/
theorem Proper.leavesAlone_of_count {w : Text} (hdot : (c.within w).count '.' = w.count '.')
    (hbrace : (c.within w).count '{' = w.count '{') : c.record.LeavesAlone w := by
  have hnot : ¬ c.record.binding <:+: w := by
    intro h
    have hlt := hc.count_brace_bound_lt h
    rw [hc.count_brace_within] at hbrace
    omega
  have hbound : c.bound w = w := replaceAll_of_not_infix c.name hc.ne_nil hnot
  have hbare := (hc.within_eq_bound hdot).2
  rw [hbound] at hbare
  exact ⟨hnot, hbare⟩

end Proper
end Collapse
end Namespacer
