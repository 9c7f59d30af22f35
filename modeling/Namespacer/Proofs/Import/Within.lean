import Namespacer.Proofs.Import.Rest
import Namespacer.Proofs.Path.Climb

/-! What is looked for, completed and filed below the root. As long as no specifier climbs out and
passes for a local path, nothing outside of the root has a bearing on a survey, and no module
outside is completed or filed. -/
namespace Namespacer

open Text

/-- Two views of a disk that are the same below a root. -/
structure Probe.AgreesWithin (probe probe' : Probe) (root : Text) : Prop where
  isDir : ∀ location, PathText.Within root location → probe.isDir location = probe'.isDir location
  isFile : ∀ location, PathText.Within root location →
    probe.isFile location = probe'.isFile location

/-- Where segments lead somewhere, they do so with an ending behind them. -/
theorem Leads.exists_append {dir target : List Text} {t : Text}
    (h : Leads dir (split '/' t) target) (ending : Ending) :
    ∃ target', Leads dir (split '/' (t ++ ending.text)) target' := by
  cases ending with
  | slash =>
    refine ⟨target, ?_⟩
    rw [Ending.text, split_append_cons]
    exact h.append (.stay (.inl rfl) .arrived)
  | extension =>
    have hending : '/' ∉ Ending.extension.text := by decide
    obtain ⟨init, last, hsplit, hsplit'⟩ := exists_split_append hending t
    rw [hsplit] at h
    rw [hsplit']
    obtain ⟨mid, hmid, -⟩ := exists_leads_of_append h
    exact ⟨_, hmid.append (.down (isName_append_extension last) .arrived)⟩

namespace Site

theorem LeadsTo.exists_append {site : Site} {specifier : Text} {target : List Text}
    (h : site.LeadsTo specifier target) (ending : Ending) :
    ∃ target', site.LeadsTo (specifier ++ ending.text) target' := by
  cases h with
  | relative hstart h =>
    obtain ⟨target', h'⟩ := h.exists_append ending
    have hlonger {start : Text} (hstart : start <+: specifier) :
        start <+: specifier ++ ending.text := hstart.trans (List.prefix_append _ _)
    exact ⟨target', .relative (hstart.imp hlonger hlonger) h'⟩
  | fromRoot h =>
    obtain ⟨target', h'⟩ := h.exists_append ending
    rw [List.append_assoc]
    exact ⟨target', .fromRoot h'⟩

/-- A specifier that climbs out and yet begins like a local path. -/
def Strays (site : Site) (specifier : Text) : Prop :=
  site.ClimbsOut specifier ∧ ['.', '/'] <+: specifier

section Proper

variable {site : Site} (hdir : ∀ s ∈ site.dirSegments, IsName s) {specifier : Text}

include hdir

theorem leadsTo_of_not_strays (hlocal : (site.resolve specifier).isLocal = true)
    (hstays : ¬ site.Strays specifier) : ∃ target, site.LeadsTo specifier target := by
  refine (leadsTo_or_climbsOut hdir hlocal).resolve_right fun hclimbs => ?_
  exact hstays ⟨hclimbs, (isLocal_resolve_of_climbsOut hdir hclimbs).mp hlocal⟩

theorem formOf_of_agrees {probe probe' : Probe} (hagree : probe.AgreesWithin probe' site.root)
    (hstays : ¬ site.Strays specifier) :
    site.formOf probe specifier = site.formOf probe' specifier := by
  unfold formOf
  dsimp only
  split
  · rfl
  · next hopen =>
    simp only [Bool.or_eq_true, not_or, Bool.not_eq_true, Bool.not_eq_false'] at hopen
    obtain ⟨⟨hlocal, hfile⟩, -⟩ := hopen
    obtain ⟨target, htarget⟩ := leadsTo_of_not_strays hdir hlocal hstays
    obtain ⟨location, hlocation, hwithin, hwithin'⟩ :=
      (htarget.inside hdir).location?_file hfile site.root
    rw [hlocation]
    dsimp only
    rw [hagree.isDir _ hwithin, hagree.isFile _ hwithin']

/-- What is found outside of the root matters exactly for a specifier that strays and does not show
by its ending what it means. -/
theorem formOf_agrees_iff :
    (∀ probe probe' : Probe, probe.AgreesWithin probe' site.root →
      site.formOf probe specifier = site.formOf probe' specifier) ↔
    ¬ (site.Strays specifier ∧ (site.resolve specifier).isDirectory = false ∧
      (site.resolve specifier).namesFile = false) := by
  constructor
  · rintro hsame ⟨hstrays, hdirectory, hfile⟩
    have hlocal := (isLocal_resolve_of_climbsOut hdir hstrays.1).mpr hstrays.2
    obtain ⟨location, hlocation, hwithin⟩ := location?_within_iff hdir hlocal site.root
    have houtside : ¬ PathText.Within site.root location := fun h => hwithin.mp h hstrays.1
    -- a disk with nothing on it, and one with a directory just there
    have hform := hsame ⟨fun _ => false, fun _ => false⟩
      ⟨fun place => decide (place = location), fun _ => false⟩
      ⟨fun place hplace => by
        symm
        rw [decide_eq_false_iff_not]
        rintro rfl
        exact houtside hplace, fun _ _ => rfl⟩
    simp [formOf, hlocal, hdirectory, hfile, hlocation] at hform
  · intro hnot probe probe' hagree
    by_cases hstrays : site.Strays specifier
    · cases hdirectory : (site.resolve specifier).isDirectory with
      | true => simp [formOf, hdirectory]
      | false =>
        cases hfile : (site.resolve specifier).namesFile with
        | true => simp [formOf, hfile]
        | false => exact absurd ⟨hstrays, hdirectory, hfile⟩ hnot
    · exact formOf_of_agrees hdir hagree hstrays

theorem not_strays_completed (probe : Probe) (hstays : ¬ site.Strays specifier) :
    ¬ site.Strays (site.completed probe specifier) := by
  unfold completed
  split
  · next ending hform =>
    obtain ⟨target, htarget⟩ := leadsTo_of_not_strays hdir (isLocal_of_lacks hform) hstays
    obtain ⟨target', htarget'⟩ := htarget.exists_append ending
    exact fun hstrays => htarget'.not_climbsOut hdir hstrays.1
  · exact hstays

end Proper
end Site

namespace Survey

variable {site : Site} {owner? : Text → Option ModulePath} {pathsOnly : Bool}

theorem add_of_formOf {probe probe' : Probe} {s : Statement}
    (h : site.formOf probe s.specifier = site.formOf probe' s.specifier) (a : Survey) :
    a.add site probe owner? pathsOnly s = a.add site probe' owner? pathsOnly s := by
  unfold add checkForm Ledger.noteForm Statement.fix? Site.completed
  rw [h]

theorem ofSource_of_formOf {probe probe' : Probe} {source : Text}
    (h : ∀ i ∈ importsOf source, site.formOf probe i.specifier = site.formOf probe' i.specifier) :
    ofSource site probe owner? pathsOnly source = ofSource site probe' owner? pathsOnly source := by
  unfold ofSource
  generalize ({} : Survey) = a
  generalize importsOf source = imports at h
  induction imports generalizing a with
  | nil => rw [List.foldlM_nil, List.foldlM_nil]
  | cons i imports ih =>
    obtain ⟨hi, himports⟩ := List.forall_mem_cons.mp h
    rw [List.foldlM_cons, List.foldlM_cons, add_of_formOf hi]
    exact bind_congr fun b => ih b himports

end Survey

/-- A specifier that climbs out is taken for a local path if it begins with `./`, and its place is
then outside of the root. A local path that does not climb out has no way up in it, and its place is
below the root. What lies outside has no bearing on specifiers that do not stray, and of a text
without straying ones no module outside is completed or filed. -/
theorem Site.below_root_iff {site : Site} (hdir : ∀ s ∈ site.dirSegments, IsName s) :
    (∀ specifier, site.ClimbsOut specifier →
      ((site.resolve specifier).isLocal = true ↔ ['.', '/'] <+: specifier)) ∧
    (∀ specifier, (site.resolve specifier).isLocal = true →
      (['.', '.'] ∈ split '/' (site.resolve specifier).text ↔ site.ClimbsOut specifier) ∧
      ∀ root, ∃ location, (site.resolve specifier).location? root = some location ∧
        (PathText.Within root location ↔ ¬ site.ClimbsOut specifier)) ∧
    (∀ specifier, (∀ probe probe' : Probe, probe.AgreesWithin probe' site.root →
        site.formOf probe specifier = site.formOf probe' specifier) ↔
      ¬ (site.Strays specifier ∧ (site.resolve specifier).isDirectory = false ∧
        (site.resolve specifier).namesFile = false)) ∧
    ∀ source, (∀ i ∈ importsOf source, ¬ site.Strays i.specifier) → ∀ probe owner? pathsOnly,
      (∀ probe' : Probe, probe.AgreesWithin probe' site.root →
        Survey.ofSource site probe owner? pathsOnly source =
          Survey.ofSource site probe' owner? pathsOnly source) ∧
      ∀ survey, Survey.ofSource site probe owner? pathsOnly source = .ok survey →
        (∀ f ∈ survey.fixes, (site.resolve f.specifier).Inside) ∧
        ∀ e ∈ survey.destructured, e.1.Inside := by
  refine ⟨fun specifier => isLocal_resolve_of_climbsOut hdir, fun specifier hlocal =>
    ⟨mem_split_iff hdir hlocal, location?_within_iff hdir hlocal⟩,
    fun specifier => formOf_agrees_iff hdir, ?_⟩
  intro source hstays probe owner? pathsOnly
  refine ⟨fun probe' hagree => Survey.ofSource_of_formOf fun i hi =>
    formOf_of_agrees hdir hagree (hstays i hi), fun survey hsurvey => ⟨?_, ?_⟩⟩
  · intro f hf
    obtain ⟨s, hs, hfix⟩ := (Survey.ofSource_fixes hsurvey f).mp hf
    obtain ⟨i, hi, rfl⟩ := List.mem_map.mp hs
    have hlocal := isLocal_of_lacks (Survey.formOf_of_fix? hfix)
    rw [Survey.specifier_of_fix? hfix] at hlocal ⊢
    obtain ⟨target, htarget⟩ := leadsTo_of_not_strays hdir hlocal (hstays i hi)
    exact htarget.inside hdir
  · intro e he
    obtain ⟨s, hs, hfiling⟩ := Survey.exists_filing?_of_mem hsurvey he
    obtain ⟨i, hi, rfl⟩ := List.mem_map.mp hs
    have hstays' := not_strays_completed hdir probe (hstays i hi)
    obtain ⟨target, htarget⟩ :=
      leadsTo_of_not_strays hdir (Statement.isLocal_of_filing? hfiling) hstays'
    rw [Statement.key_of_filing? hfiling]
    exact (htarget.inside hdir).key

/-- From a file at the root, `./../b` is taken for a local path, but its place is not below. -/
theorem Site.below_root_iff_straying :
    let site : Site := ⟨"/p".toList, "a.js".toList⟩
    (∀ s ∈ site.dirSegments, IsName s) ∧ site.ClimbsOut "./../b".toList ∧
      (site.resolve "./../b".toList).isLocal = true ∧
      ∃ location, (site.resolve "./../b".toList).location? site.root = some location ∧
        ¬ PathText.Within site.root location := by
  intro site
  have hdir : ∀ s ∈ site.dirSegments, IsName s := by
    have heq : site.dirSegments = [] := by decide +kernel
    simp [heq]
  have hclimbs : site.ClimbsOut "./../b".toList :=
    (climbsOut_iff hdir).mpr (by decide +kernel)
  obtain ⟨hlocal, hplaces, -⟩ := below_root_iff hdir
  have hstarts := (hlocal _ hclimbs).mpr (by decide +kernel)
  obtain ⟨location, hlocation, hwithin⟩ := (hplaces _ hstarts).2 site.root
  exact ⟨hdir, hclimbs, hstarts, location, hlocation, fun h => hwithin.mp h hclimbs⟩

end Namespacer
