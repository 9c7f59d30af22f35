import Namespacer.Proofs.Import.Completed

/-! What completing specifiers does to the text around them. Endings are put in, each in front of a
quote that gets no other, and all else stays as it is. -/
namespace Namespacer

open Text

namespace PathFix

/-- A text, and the same with endings of fixes put in front of some of its quotes. A quote gets one
ending at most. -/
inductive Fills (fixes : List PathFix) : (t t' : Text) → Prop where
  | nil : Fills fixes [] []
  | kept (c : Char) {t t' : Text} (h : Fills fixes t t') : Fills fixes (c :: t) (c :: t')
  | filled {f : PathFix} (hf : f ∈ fixes) {t t' : Text} (h : Fills fixes t t') :
      Fills fixes (f.quote.char :: t) (f.ending.text ++ f.quote.char :: t')

theorem Passes.suffix {pending pending' : Option Text} {x s : Text}
    (h : Passes pending x pending') (hpending : ∀ u ∈ pending, u <:+ s) :
    ∀ u ∈ pending', u <:+ s := by
  obtain ⟨-, rfl⟩ | ⟨v, rfl, rfl⟩ := h
  · simp
  · rintro _ ⟨⟩
    exact (List.suffix_append x v).trans (hpending _ rfl)

/-- Whether the specifier of a fix does not end like one that is completed. -/
def IsOpen (f : PathFix) : Prop := ∀ ending : Ending, ¬ ending.text <:+ f.specifier

namespace Fills

variable {fixes : List PathFix} {t t' u : Text}

theorem refl (fixes : List PathFix) (t : Text) : Fills fixes t t := by
  induction t with
  | nil => exact .nil
  | cons c t ih => exact .kept c ih

theorem length_le (h : Fills fixes t t') : t.length ≤ t'.length := by
  induction h with
  | nil => exact Nat.le_refl _
  | kept c _ ih => exact Nat.succ_le_succ ih
  | filled _ _ ih =>
    rw [List.length_append, List.length_cons, List.length_cons]
    omega

/-- An occurrence never closes with a quote that has an ending already. -/
theorem edits {f : PathFix} (hf : f ∈ fixes) (hopen : f.IsOpen) {pending : Option Text}
    (h : Fills fixes t t') (hedits : Edits f pending t' u)
    (hpending : ∀ v ∈ pending, v <:+ f.specifier) : Fills fixes t u := by
  induction h generalizing pending u with
  | nil =>
    cases hedits
    exact .nil
  | kept c _ ih =>
    cases hedits with
    | kept _ hrest => exact .kept c (ih hrest hpending)
    | opened hrest => exact .kept _ (ih hrest (by simp))
    | inside hrest =>
      apply Fills.kept c
      apply ih hrest
      rintro _ ⟨⟩
      exact (List.suffix_cons c _).trans (hpending _ rfl)
    | closed hrest => exact .filled hf (ih hrest (by simp))
  | @filled g hg t t' _ ih =>
    have hending : f.quote.char ∉ g.ending.text := by
      intro hmem
      have hquote := (Ending.ne_of_mem hmem).1
      rw [isQuote_char] at hquote
      contradiction
    obtain ⟨pending', u, rfl, hu, hpasses⟩ := hedits.of_append hending
    have hpending' := hpasses.suffix hpending
    have hfilled {u : Text} (h : Fills fixes t u) :
        Fills fixes (g.quote.char :: t) (g.ending.text ++ g.quote.char :: u) := .filled hg h
    generalize g.quote.char = q at hu hfilled ⊢
    cases hu with
    | kept _ hrest => exact hfilled (ih hrest hpending')
    | opened hrest => exact hfilled (ih hrest (by simp))
    | inside hrest =>
      apply hfilled
      apply ih hrest
      rintro _ ⟨⟩
      exact (List.suffix_cons q _).trans (hpending' _ rfl)
    | closed hrest =>
      -- what was pending before the ending is the ending itself
      obtain ⟨-, hnone⟩ | ⟨v, rfl, hv⟩ := hpasses
      · contradiction
      · cases hv
        have hsuffix := hpending _ rfl
        rw [List.append_nil] at hsuffix
        exact absurd hsuffix (hopen g.ending)

theorem apply {f : PathFix} (hf : f ∈ fixes) (hopen : f.IsOpen) (h : Fills fixes t t') :
    Fills fixes t (f.patch.apply t') :=
  h.edits hf hopen (Edits.apply f t') (by simp)

theorem applyAll (hopen : ∀ f ∈ fixes, f.IsOpen) {applied : List PathFix}
    (hsub : applied ⊆ fixes) (h : Fills fixes t t') :
    Fills fixes t (Patch.applyAll (applied.map patch) t') := by
  induction applied generalizing t' with
  | nil => exact h
  | cons f applied ih =>
    obtain ⟨hf, hsub⟩ := List.cons_subset.mp hsub
    exact ih hsub (h.apply hf (hopen f hf))

/-- The text is cut at the quotes that get an ending. -/
theorem exists_cut (h : Fills fixes t t') :
    ∃ (front : Text) (pieces : List (PathFix × Text)),
      t = front ++ pieces.flatMap (fun p => p.1.quote.char :: p.2) ∧
      t' = front ++ pieces.flatMap (fun p => p.1.ending.text ++ p.1.quote.char :: p.2) ∧
      ∀ p ∈ pieces, p.1 ∈ fixes := by
  induction h with
  | nil => exact ⟨[], [], rfl, rfl, by simp⟩
  | kept c _ ih =>
    obtain ⟨front, pieces, rfl, rfl, hpieces⟩ := ih
    exact ⟨c :: front, pieces, rfl, rfl, hpieces⟩
  | @filled f hf t t' _ ih =>
    obtain ⟨front, pieces, rfl, rfl, hpieces⟩ := ih
    refine ⟨[], (f, front) :: pieces, by simp, by simp, ?_⟩
    exact List.forall_mem_cons.mpr ⟨hf, hpieces⟩

end Fills

theorem length_lt_apply (f : PathFix) {t : Text} (h : f.pattern <:+: t) :
    t.length < (f.patch.apply t).length := by
  apply length_lt_replaceAll (List.cons_ne_nil _ _) _ h
  cases hending : f.ending <;>
    simp [patch, pattern, replacement, Quote.wrap, Ending.text, hending]

theorem length_lt_applyAll {f : PathFix} {fixes : List PathFix} {t : Text}
    (hopen : ∀ g ∈ f :: fixes, g.IsOpen) (h : f.pattern <:+: t) :
    t.length < (Patch.applyAll ((f :: fixes).map patch) t).length := by
  have hrest := (Fills.refl (f :: fixes) (f.patch.apply t)).applyAll hopen
    (List.subset_cons_self f fixes)
  exact Nat.lt_of_lt_of_le (length_lt_apply f h) hrest.length_le

end PathFix

theorem Statement.literal_infix {source : Text} {s : Statement} (h : s ∈ statementsOf source) :
    s.literal <:+: source := by
  obtain ⟨i, hi, rfl⟩ := List.mem_map.mp h
  have hinfix := (scans_importTexts source).infix_of_mem (List.mem_map_of_mem hi)
  obtain ⟨x, y, z, htext, -⟩ := (written_textIn hi).exists_frame
  have hliteral : i.literal <:+: i.textIn source :=
    ⟨x ++ (i.binding.text ++ y), z, by simp [htext, Statement.literal]⟩
  exact hliteral.trans hinfix

namespace Survey

variable {site : Site} {probe : Probe} {owner? : Text → Option ModulePath} {pathsOnly : Bool}

theorem pattern_of_fix? {s : Statement} {f : PathFix} (h : s.fix? site probe = some f) :
    f.pattern = s.literal := by
  unfold Statement.fix? at h
  split at h
  · cases h
    rfl
  · contradiction

theorem isOpen_of_fix? {s : Statement} {f : PathFix} (h : s.fix? site probe = some f) :
    f.IsOpen := by
  rintro ending ⟨front, hfront⟩
  have hform := formOf_of_fix? h
  rw [← hfront, Site.formOf_append] at hform
  contradiction

/-- Completing the specifiers of a text only puts endings in: the text is cut at some of its quotes,
and at each cut comes the ending of one fix. There is a cut exactly if there is a fix. -/
theorem applyAll_patches_cut {source : Text} {survey : Survey}
    (h : ofSource site probe owner? pathsOnly source = .ok survey) :
    ∃ (front : Text) (pieces : List (PathFix × Text)),
      source = front ++ pieces.flatMap (fun p => p.1.quote.char :: p.2) ∧
      Patch.applyAll survey.patches source =
        front ++ pieces.flatMap (fun p => p.1.ending.text ++ p.1.quote.char :: p.2) ∧
      (∀ p ∈ pieces, p.1 ∈ survey.fixes) ∧ (pieces = [] ↔ survey.fixes = []) := by
  have hopen : ∀ f ∈ survey.fixes, f.IsOpen := by
    intro f hf
    obtain ⟨s, -, hfix⟩ := (ofSource_fixes h f).mp hf
    exact isOpen_of_fix? hfix
  have hfills := (PathFix.Fills.refl survey.fixes source).applyAll hopen (List.Subset.refl _)
  obtain ⟨front, pieces, hsource, hpatched, hpieces⟩ := hfills.exists_cut
  refine ⟨front, pieces, hsource, hpatched, hpieces, fun hnil => ?_, fun hnil => ?_⟩
  · cases hfixes : survey.fixes with
    | nil => rfl
    | cons f fixes =>
      have hf : f ∈ survey.fixes := by rw [hfixes]; exact List.mem_cons_self
      obtain ⟨s, hs, hfix⟩ := (ofSource_fixes h f).mp hf
      -- the first fix finds the literal of its statement, so the text grows
      have hinfix : f.pattern <:+: source := pattern_of_fix? hfix ▸ Statement.literal_infix hs
      have hgrows := PathFix.length_lt_applyAll (hfixes ▸ hopen) hinfix
      rw [← hfixes, hpatched, hsource, hnil] at hgrows
      exact absurd hgrows (Nat.lt_irrefl _)
  · apply List.eq_nil_iff_forall_not_mem.mpr
    intro p hp
    have hfix := hpieces p hp
    rw [hnil] at hfix
    contradiction

/-- Of three quoted specifiers that share their quotes the first and the last are completed, and so
is the first of two behind them. -/
theorem applyAll_patches_cut_shared :
    let site : Site := ⟨[], "a.js".toList⟩
    let probe : Probe := ⟨fun path => path == "n".toList, fun path => path == "m.js".toList⟩
    let source :=
      "let A = require('./m');let B = require(\"./n\");log('./m'./m'./m'\"./n\"./n\")".toList
    let patched := ("let A = require('./m.js');let B = require(\"./n/\");" ++
      "log('./m.js'./m'./m.js'\"./n/\"./n\")").toList
    ∃ survey, ofSource site probe (fun _ => none) false source = .ok survey ∧
      Patch.applyAll survey.patches source = patched ∧
      ∃ (front : Text) (pieces : List (PathFix × Text)),
        source = front ++ pieces.flatMap (fun p => p.1.quote.char :: p.2) ∧
        patched = front ++ pieces.flatMap (fun p => p.1.ending.text ++ p.1.quote.char :: p.2) ∧
        (∀ p ∈ pieces, p.1 ∈ survey.fixes) ∧ pieces ≠ [] := by
  intro site probe source patched
  have hresult : (ofSource site probe (fun _ => none) false source).toOption.map
      (fun survey => (survey.fixes.length, Patch.applyAll survey.patches source)) =
        some (2, patched) := by
    decide +kernel
  cases hsurvey : ofSource site probe (fun _ => none) false source with
  | error f =>
    rw [hsurvey] at hresult
    contradiction
  | ok survey =>
    rw [hsurvey] at hresult
    obtain ⟨hfixes, hpatched⟩ := Prod.mk.inj (Option.some.inj hresult)
    obtain ⟨front, pieces, hsource, hcut, hpieces, hnil⟩ := applyAll_patches_cut hsurvey
    rw [hpatched] at hcut
    refine ⟨survey, rfl, hpatched, front, pieces, hsource, hcut, hpieces, fun hno => ?_⟩
    rw [hnil.mp hno] at hfixes
    contradiction

end Survey
end Namespacer
