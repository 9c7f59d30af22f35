import Namespacer.Proofs.Import.Dropped
import Namespacer.Proofs.Import.Patched

/-! The form of the paths that modules are filed by. Such a path is in full form, with a slash or a
known extension at its end, unless a warning tells that its target is missing or ambiguous. -/
namespace Namespacer

open Text

/-- Whether the end of a path shows what it leads to. -/
def ModulePath.isFull (p : ModulePath) : Bool := p.isDirectory || p.namesFile

/-- Only the path to an index file is folded, and the path to its directory shows as much. -/
theorem ModulePath.key_eq_or_isFull (p : ModulePath) :
    p.key = p ∨ p.isFull = true ∧ p.key.isFull = true := by
  cases hpath : before? indexFile p.text with
  | none => exact .inl (by simp only [key, hpath])
  | some dir =>
    have hkey : p.key = ⟨dir ++ ['/']⟩ := by simp only [key, hpath]
    have hdirectory : (⟨dir ++ ['/']⟩ : ModulePath).isDirectory = true :=
      endsWith_iff.mpr (List.suffix_append _ _)
    have hfile : p.namesFile = true := by
      have hindex : ['.', 'j', 's'] <:+ p.text := by
        rw [before?_eq_some_iff.mp hpath]
        exact List.IsSuffix.trans (by decide) (List.suffix_append dir indexFile)
      exact List.any_eq_true.mpr ⟨_, List.mem_cons_self, endsWith_iff.mpr hindex⟩
    exact .inr ⟨by rw [isFull, hfile, Bool.or_true], by rw [hkey, isFull, hdirectory, Bool.true_or]⟩

theorem ModulePath.isFull_key (p : ModulePath) : p.key.isFull = p.isFull := by
  rcases p.key_eq_or_isFull with hkey | ⟨hpath, hkey⟩
  · rw [hkey]
  · rw [hkey, hpath]

/-! Warnings about forms. -/

/-- The warning about a path whose target is found in no way or in two. -/
def PathForm.warning? (path : ModulePath) : PathForm → Option Warning
  | .ambiguous => some (.ambiguous path)
  | .missing => some (.missing path)
  | _ => none

theorem PathForm.eq_of_warning? {form : PathForm} {path : ModulePath} {warning : Warning}
    (h : form.warning? path = some warning) :
    warning = .missing path ∨ warning = .ambiguous path := by
  cases form with
  | complete => contradiction
  | lacks ending => contradiction
  | ambiguous =>
    cases h
    exact .inr rfl
  | missing =>
    cases h
    exact .inl rfl

/-- Whether a warning is about the target of a path. -/
def Warning.isOfForm : Warning → Bool
  | missing _ => true
  | ambiguous _ => true
  | _ => false

theorem Ledger.noteForm_warnings (r : Ledger) (site : Site) (probe : Probe) (specifier : Text) :
    (r.noteForm site probe specifier).warnings =
      match (site.formOf probe specifier).warning? (site.resolve specifier) with
      | some warning => r.warnings.push (site.resolve specifier).text warning
      | none => r.warnings := by
  unfold noteForm
  cases site.formOf probe specifier <;> rfl

namespace Site

variable {site : Site} {probe : Probe} {specifier : Text}

theorem isFull_of_complete (hlocal : (site.resolve specifier).isLocal = true)
    (h : site.formOf probe specifier = .complete) : (site.resolve specifier).isFull = true := by
  unfold formOf at h
  dsimp only at h
  split at h
  · next hshown =>
    rw [hlocal] at hshown
    exact hshown
  · split at h
    · next hnone =>
      obtain ⟨rest, hrest⟩ := Option.isSome_iff_exists.mp hlocal
      rw [ModulePath.location?, hrest] at hnone
      contradiction
    · split at h <;> contradiction

theorem isFull_eq_false_of_warning? {path : ModulePath} {warning : Warning}
    (h : (site.formOf probe specifier).warning? path = some warning) :
    (site.resolve specifier).isFull = false := by
  unfold formOf at h
  dsimp only at h
  split at h
  · contradiction
  · next hopen =>
    rw [Bool.not_eq_true, Bool.or_eq_false_iff, Bool.or_eq_false_iff] at hopen
    rw [ModulePath.isFull, hopen.1.2, hopen.2, Bool.or_false]

/-- A local specifier is completed, was full before, or gives rise to a warning. -/
theorem isFull_or_warning?
    (hlocal : (site.resolve (site.completed probe specifier)).isLocal = true) :
    (site.resolve (site.completed probe specifier)).isFull = true ∨
      site.completed probe specifier = specifier ∧
        ∃ warning, (site.formOf probe specifier).warning? (site.resolve specifier) =
          some warning := by
  unfold completed at hlocal ⊢
  cases hform : site.formOf probe specifier with
  | complete =>
    rw [hform] at hlocal
    exact .inl (isFull_of_complete hlocal hform)
  | lacks ending =>
    left
    cases ending with
    | slash => exact Bool.or_eq_true_iff.mpr (.inl (site.isDirectory_resolve specifier))
    | extension => exact Bool.or_eq_true_iff.mpr (.inr (site.namesFile_resolve specifier))
  | ambiguous => exact .inr ⟨rfl, _, rfl⟩
  | missing => exact .inr ⟨rfl, _, rfl⟩

end Site

namespace Survey

variable {site : Site} {probe : Probe} {owner? : Text → Option ModulePath} {pathsOnly : Bool}

section Form

variable {key : Text} {warning : Warning} (hform : warning.isOfForm = true)

include hform

theorem mem_warn_iff_of_form (r : Ledger) (path : Text) {other : Warning}
    (hother : other.isOfForm = false) :
    (key, warning) ∈ (r.warn path other).warnings.toList ↔ (key, warning) ∈ r.warnings.toList := by
  have hne : warning ≠ other := by
    rintro rfl
    rw [hform] at hother
    contradiction
  rw [Ledger.warn, Warnings.mem_toList_push_iff]
  simp [hne]

theorem mem_enterPlain_iff_of_form (r : Ledger) (name : Text) (path : ModulePath)
    (keyword specifier : Text) :
    (key, warning) ∈ (r.enterPlain name path keyword specifier).2.warnings.toList ↔
      (key, warning) ∈ r.warnings.toList := by
  unfold Ledger.enterPlain
  split
  · rfl
  · dsimp only
    split
    · rfl
    · exact mem_warn_iff_of_form hform r path.text rfl

theorem mem_enterDestructured_iff_of_form (r : Ledger) (path : ModulePath) (d : Destructuring)
    (keyword : Text) :
    (key, warning) ∈ (r.enterDestructured path d keyword).2.warnings.toList ↔
      (key, warning) ∈ r.warnings.toList := by
  unfold Ledger.enterDestructured
  split
  · rfl
  · dsimp only
    split
    · rfl
    · exact mem_warn_iff_of_form hform r path.text rfl

theorem mem_addDestructuring_iff_of_form (a : Survey) (site : Site) (keyword : Keyword)
    (inner : Text) (quote : Quote) (specifier : Text) :
    (key, warning) ∈
        (a.addDestructuring site keyword inner quote specifier).warnings.toList ↔
      (key, warning) ∈ a.warnings.toList := by
  unfold addDestructuring
  dsimp only
  split
  · rfl
  · split
    · exact mem_warn_iff_of_form hform a.toLedger _ rfl
    · exact mem_enterDestructured_iff_of_form hform a.toLedger _ _ _

/-- A statement adds the warning about its own form, if there is one, and no other of that kind. -/
theorem mem_add_iff_of_form {a b : Survey} {s : Statement}
    (h : a.add site probe owner? pathsOnly s = .ok b) :
    (key, warning) ∈ b.warnings.toList ↔ (key, warning) ∈ a.warnings.toList ∨
      key = (site.resolve s.specifier).text ∧
        (site.formOf probe s.specifier).warning? (site.resolve s.specifier) = some warning := by
  have hchecked : (key, warning) ∈ (a.checkForm site probe s).warnings.toList ↔
      (key, warning) ∈ a.warnings.toList ∨ key = (site.resolve s.specifier).text ∧
        (site.formOf probe s.specifier).warning? (site.resolve s.specifier) = some warning := by
    rw [checkForm_toLedger, Ledger.noteForm_warnings]
    split
    · next noted hnoted => simp [Warnings.mem_toList_push_iff, hnoted, eq_comm]
    · next hnone => simp [hnone]
  rw [← hchecked]
  unfold add at h
  dsimp only at h
  split at h
  · rw [addPlain_toLedger h]
    exact mem_enterPlain_iff_of_form hform _ _ _ _ _
  · cases h
    split
    · rfl
    · exact mem_addDestructuring_iff_of_form hform _ _ _ _ _ _

/-- The warnings about forms are those that some statement gives rise to. -/
theorem mem_ofSource_iff_of_form {source : Text} {survey : Survey}
    (h : ofSource site probe owner? pathsOnly source = .ok survey) :
    (key, warning) ∈ survey.warnings.toList ↔
      ∃ s ∈ statementsOf source, key = (site.resolve s.specifier).text ∧
        (site.formOf probe s.specifier).warning? (site.resolve s.specifier) = some warning := by
  have hall := ofSource_induction (motive := fun a done =>
    (key, warning) ∈ a.warnings.toList ↔ ∃ i ∈ done, key = (site.resolve i.specifier).text ∧
      (site.formOf probe i.specifier).warning? (site.resolve i.specifier) = some warning) h
    (iff_of_false (fun hmem => nomatch hmem) (by simp)) fun a i b done ha hi => by
      rw [mem_add_iff_of_form hform hi, ha]
      simp [or_and_right, exists_or]
  simpa [statementsOf] using hall

end Form

theorem isFull_eq_false_of_mem_warnings {source : Text} {survey : Survey}
    (h : ofSource site probe owner? pathsOnly source = .ok survey) {path : ModulePath}
    {warning : Warning} (hform : warning.isOfForm = true)
    (hmem : (path.text, warning) ∈ survey.warnings.toList) : path.isFull = false := by
  obtain ⟨s, -, htext, hwarning⟩ := (mem_ofSource_iff_of_form hform h).mp hmem
  have hpath : path = site.resolve s.specifier := by
    cases path
    exact congrArg ModulePath.mk htext
  rw [hpath]
  exact Site.isFull_eq_false_of_warning? hwarning

/-- The path that a module is filed by shows what it leads to, exactly if there is no warning that
this is missing or ambiguous. -/
theorem ofSource_full_iff {source : Text} {survey : Survey}
    (h : ofSource site probe owner? pathsOnly source = .ok survey)
    {e : ModulePath × Destructuring} (he : e ∈ survey.destructured) :
    e.1.isDirectory = true ∨ e.1.namesFile = true ↔
      ¬ ((e.1.text, .missing e.1) ∈ survey.warnings.toList ∨
        (e.1.text, .ambiguous e.1) ∈ survey.warnings.toList) := by
  obtain ⟨s, hs, hfiling⟩ := exists_filing?_of_mem h he
  have hlocal := Statement.isLocal_of_filing? hfiling
  have hkey := Statement.key_of_filing? hfiling
  rw [← Bool.or_eq_true_iff, ← ModulePath.isFull]
  constructor
  · intro hfull hwarned
    -- a path that such a warning is about is not full
    have hopen : e.1.isFull = false := by
      rcases hwarned with hwarned | hwarned
      · exact isFull_eq_false_of_mem_warnings h rfl hwarned
      · exact isFull_eq_false_of_mem_warnings h rfl hwarned
    rw [hopen] at hfull
    contradiction
  · intro hnone
    rcases Site.isFull_or_warning? hlocal with hfull | ⟨hsame, warning, hwarning⟩
    · rw [hkey, ModulePath.isFull_key]
      exact hfull
    · have hpath : e.1 = site.resolve s.specifier := by
        rw [hkey]
        change (site.resolve (site.completed probe s.specifier)).key = _
        rw [hsame]
        refine (ModulePath.key_eq_or_isFull _).resolve_right fun hfull => ?_
        rw [Site.isFull_eq_false_of_warning? hwarning] at hfull
        exact absurd hfull.1 Bool.false_ne_true
      rw [hpath] at hnone
      refine absurd ?_ hnone
      have hmem (hform : warning.isOfForm = true) := (mem_ofSource_iff_of_form hform h).mpr
        ⟨s, hs, rfl, hwarning⟩
      rcases PathForm.eq_of_warning? hwarning with rfl | rfl
      · exact .inl (hmem rfl)
      · exact .inr (hmem rfl)

/-- Of two modules of which nothing is found, one is filed by the path to its index file, folded,
and the other one with a warning. -/
theorem ofSource_full_iff_missing :
    let result := ofSource ⟨"/p".toList, "lib/a.js".toList⟩ ⟨fun _ => false, fun _ => false⟩
      (fun _ => none) false
      "let { a } = require('./b/../m');let { c } = require('../d/index.js')".toList
    ∃ survey, result = .ok survey ∧
      survey.destructured.map Prod.fst = [⟨"./lib/m".toList⟩, ⟨"./d/".toList⟩] ∧
      (("./lib/m".toList, .missing ⟨"./lib/m".toList⟩) ∈ survey.warnings.toList ∨
        ("./lib/m".toList, .ambiguous ⟨"./lib/m".toList⟩) ∈ survey.warnings.toList) ∧
      ¬ (("./d/".toList, .missing ⟨"./d/".toList⟩) ∈ survey.warnings.toList ∨
        ("./d/".toList, .ambiguous ⟨"./d/".toList⟩) ∈ survey.warnings.toList) := by
  intro result
  have hpaths : result.toOption.map (fun survey => survey.destructured.map Prod.fst) =
      some [⟨"./lib/m".toList⟩, ⟨"./d/".toList⟩] := by decide +kernel
  cases hresult : result with
  | error f =>
    rw [hresult] at hpaths
    contradiction
  | ok survey =>
    rw [hresult] at hpaths
    have hfiled : survey.destructured.map Prod.fst = [⟨"./lib/m".toList⟩, ⟨"./d/".toList⟩] :=
      Option.some.inj hpaths
    have hiff {path : ModulePath} (hpath : path ∈ survey.destructured.map Prod.fst) :
        path.isDirectory = true ∨ path.namesFile = true ↔
          ¬ ((path.text, .missing path) ∈ survey.warnings.toList ∨
            (path.text, .ambiguous path) ∈ survey.warnings.toList) := by
      obtain ⟨e, he, rfl⟩ := List.mem_map.mp hpath
      exact ofSource_full_iff hresult he
    rw [hfiled] at hiff
    have hopen : ¬ ((⟨"./lib/m".toList⟩ : ModulePath).isDirectory = true ∨
        (⟨"./lib/m".toList⟩ : ModulePath).namesFile = true) := by decide +kernel
    refine ⟨survey, rfl, hfiled, ?_, ?_⟩
    · exact Decidable.not_not.mp fun hnone => hopen ((hiff List.mem_cons_self).mpr hnone)
    · exact (hiff (List.mem_cons_of_mem _ List.mem_cons_self)).mp (by decide +kernel)

end Survey
end Namespacer
