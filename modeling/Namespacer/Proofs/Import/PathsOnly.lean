import Namespacer.Proofs.Import.FullForm

/-! Surveys that only look at specifiers. Such a survey passes over destructuring imports, and that
makes no difference to anything else: it fails where a full survey fails, and it finds the same
fixes, the same plain imports, and the same warnings about them. -/
namespace Namespacer

open Text

/-- Both fail in the same way, or both succeed and the results are related. -/
inductive Agrees {ε α β : Type} (R : α → β → Prop) : Except ε α → Except ε β → Prop where
  | error (e : ε) : Agrees R (.error e) (.error e)
  | ok {a : α} {b : β} (h : R a b) : Agrees R (.ok a) (.ok b)

theorem Agrees.foldlM {ε α β γ : Type} {R : α → β → Prop} {f : α → γ → Except ε α}
    {g : β → γ → Except ε β} (hstep : ∀ a b c, R a b → Agrees R (f a c) (g b c)) (cs : List γ)
    {a : α} {b : β} (h : R a b) : Agrees R (cs.foldlM f a) (cs.foldlM g b) := by
  induction cs generalizing a b with
  | nil => exact .ok h
  | cons c cs ih =>
    rw [List.foldlM_cons, List.foldlM_cons]
    have hfirst := hstep a b c h
    generalize f a c = x at hfirst ⊢
    generalize g b c = y at hfirst ⊢
    cases hfirst with
    | error e => exact .error e
    | ok hrelated => exact ih hrelated

/-! Warnings by key. -/

/-- Whether a warning is about a destructuring import that is not filed. -/
def Warning.isOfBraces : Warning → Bool
  | redeclaredList _ _ => true
  | unsupported _ _ _ _ => true
  | _ => false

namespace Warnings

/-- The warnings under one key, in the order they came. -/
def about (w : Warnings) (key : Text) : List Warning := (w.find? key).getD []

theorem about_push (w : Warnings) (key : Text) (warning : Warning) (key' : Text) :
    (w.push key warning).about key' =
      w.about key' ++ if key = key' then [warning] else [] := by
  unfold about find? push
  rw [Table.find?_insert]
  split
  · next h =>
    subst h
    rfl
  · rw [List.append_nil]

/-- Under each key the warnings are those of another list without those about braces. -/
def Omit (only all : Warnings) : Prop :=
  ∀ key, only.about key = (all.about key).filter fun w => !w.isOfBraces

namespace Omit

variable {only all : Warnings} (h : only.Omit all) (key : Text) {warning : Warning}

include h

theorem push (hother : warning.isOfBraces = false) :
    (only.push key warning).Omit (all.push key warning) := by
  intro key'
  rw [about_push, about_push, h, List.filter_append]
  split <;> simp [hother]

theorem push_right (hbraces : warning.isOfBraces = true) : only.Omit (all.push key warning) := by
  intro key'
  rw [about_push, h, List.filter_append]
  split <;> simp [hbraces]

end Omit
end Warnings

namespace Survey

theorem addFix_fixes_congr {a b : Survey} (h : a.fixes = b.fixes) (f : PathFix) :
    (a.addFix f).fixes = (b.addFix f).fixes := by
  unfold addFix
  rw [h]
  split
  · exact h
  · rfl

theorem checkForm_fixes_congr {a b : Survey} (h : a.fixes = b.fixes) (site : Site) (probe : Probe)
    (s : Statement) : (a.checkForm site probe s).fixes = (b.checkForm site probe s).fixes := by
  unfold checkForm
  dsimp only
  split
  · exact h
  · apply addFix_fixes_congr
    exact h

theorem addDestructuring_fixes (a : Survey) (site : Site) (keyword : Keyword) (inner : Text)
    (quote : Quote) (specifier : Text) :
    (a.addDestructuring site keyword inner quote specifier).fixes = a.fixes := by
  unfold addDestructuring
  dsimp only
  split
  · rfl
  · split <;> rfl

/-- A survey that passes over destructuring imports beside a full one. -/
structure Omits (only all : Survey) : Prop where
  fixes : only.fixes = all.fixes
  plain : only.plain = all.plain
  destructured : only.destructured = []
  warnings : only.warnings.Omit all.warnings

namespace Omits

theorem start : Omits {} {} := ⟨rfl, rfl, rfl, fun _ => rfl⟩

variable {only all : Survey} (h : Omits only all) (site : Site) (probe : Probe)

include h

theorem checkForm (s : Statement) :
    Omits (only.checkForm site probe s) (all.checkForm site probe s) := by
  obtain ⟨honly, hnone⟩ := checkForm_eq only site probe s
  obtain ⟨hall, -⟩ := checkForm_eq all site probe s
  refine ⟨checkForm_fixes_congr h.fixes site probe s, ?_, ?_, ?_⟩
  · rw [honly, hall, h.plain]
  · rw [hnone, h.destructured]
  · rw [checkForm_toLedger, checkForm_toLedger, Ledger.noteForm_warnings, Ledger.noteForm_warnings]
    cases hform : site.formOf probe s.specifier with
    | complete => exact h.warnings
    | lacks ending => exact h.warnings
    | ambiguous => exact h.warnings.push _ rfl
    | missing => exact h.warnings.push _ rfl

theorem enterPlain_warnings (name : Text) (path : ModulePath) (keyword specifier : Text) :
    (only.enterPlain name path keyword specifier).2.warnings.Omit
      (all.enterPlain name path keyword specifier).2.warnings := by
  unfold Ledger.enterPlain
  rw [h.plain]
  cases all.plain.find? name with
  | none => exact h.warnings
  | some first =>
    dsimp only
    split
    · exact h.warnings
    · exact h.warnings.push _ rfl

theorem addPlain (owner? : Text → Option ModulePath) (keyword : Keyword) (name specifier : Text) :
    Agrees Omits (only.addPlain site owner? keyword name specifier)
      (all.addPlain site owner? keyword name specifier) := by
  unfold Survey.addPlain
  dsimp only
  split
  · exact .error _
  · obtain ⟨honly, hnone⟩ := enterPlain_plain only.toLedger name (site.resolve specifier)
      keyword.text specifier
    obtain ⟨hall, -⟩ := enterPlain_plain all.toLedger name (site.resolve specifier)
      keyword.text specifier
    refine .ok ⟨h.fixes, ?_, hnone.trans h.destructured, h.enterPlain_warnings _ _ _ _⟩
    exact honly.trans (by rw [h.plain, hall])

/-- A destructuring import that is passed over makes no difference. -/
theorem addDestructuring {s : Statement} {inner : Text} (hinner : s.binding = .braces inner) :
    Omits only (all.addDestructuring site s.keyword inner s.quote s.specifier) := by
  have hfixes := all.addDestructuring_fixes site s.keyword inner s.quote s.specifier
  have hplain := (all.addDestructuring_cases site s.keyword inner s.quote s.specifier).1
  refine ⟨h.fixes.trans hfixes.symm, h.plain.trans hplain.symm, h.destructured, ?_⟩
  rcases all.addDestructuring_filing site hinner with
    ⟨-, hsame | ⟨_, _, _, _, _, hwarned⟩⟩ | ⟨e, -, hentered⟩
  · rw [hsame]
    exact h.warnings
  · rw [hwarned]
    exact h.warnings.push_right _ rfl
  · rw [hentered]
    dsimp only
    unfold Ledger.enterDestructured
    split
    · exact h.warnings
    · dsimp only
      split
      · exact h.warnings
      · exact h.warnings.push_right _ rfl

theorem add (owner? : Text → Option ModulePath) (s : Statement) :
    Agrees Omits (only.add site probe owner? true s) (all.add site probe owner? false s) := by
  have hchecked := h.checkForm site probe s
  unfold Survey.add
  dsimp only
  cases hbinding : s.binding with
  | name id => exact hchecked.addPlain site owner? s.keyword id _
  | braces inner =>
    exact .ok (hchecked.addDestructuring site (s := s.completed site probe) hbinding)

end Omits

/-- Looking at specifiers only changes nothing about them. Both surveys fail with the same fault, or
both succeed with the same fixes and plain imports; the one that passes over destructuring imports
files none of them, and under each key it has the warnings of the other that are not about them. -/
theorem ofSource_pathsOnly (site : Site) (probe : Probe) (owner? : Text → Option ModulePath)
    (source : Text) :
    (∃ fault, ofSource site probe owner? true source = .error fault ∧
      ofSource site probe owner? false source = .error fault) ∨
    ∃ only all, ofSource site probe owner? true source = .ok only ∧
      ofSource site probe owner? false source = .ok all ∧
      only.fixes = all.fixes ∧ only.patches = all.patches ∧ only.plain = all.plain ∧
      only.destructured = [] ∧
      ∀ key, (only.warnings.about key).Sublist (all.warnings.about key) ∧
        only.warnings.about key = (all.warnings.about key).filter fun w => !w.isOfBraces := by
  have hagrees : Agrees Omits (ofSource site probe owner? true source)
      (ofSource site probe owner? false source) := by
    apply Agrees.foldlM _ (importsOf source) Omits.start
    intro only all i h
    exact h.add site probe owner? i.toStatement
  generalize ofSource site probe owner? true source = x at hagrees ⊢
  generalize ofSource site probe owner? false source = y at hagrees ⊢
  cases hagrees with
  | error fault => exact .inl ⟨fault, rfl, rfl⟩
  | @ok only all h =>
    refine .inr ⟨only, all, rfl, rfl, h.fixes, ?_, h.plain, h.destructured, fun key => ⟨?_, ?_⟩⟩
    · rw [patches, patches, h.fixes]
    · rw [h.warnings key]
      exact List.filter_sublist
    · exact h.warnings key

end Survey
end Namespacer
