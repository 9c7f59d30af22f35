import Namespacer.Proofs.Import.Dropped
import Namespacer.Proofs.Run.Honoured
import Namespacer.Proofs.Run.Imports
import Namespacer.Proofs.Run.PlainImports

/-! A run over what a run has left behind. It finds the same files, with every specifier completed
and every filed import collapsed, so there is nothing left to do in them, unless a plain import has
the name that was given to another module, or an import was dropped because its module is
destructured in another way as well. -/
namespace Namespacer

open Text

namespace Run

/-! One visit. -/

/-- Nothing of what counts has changed: no file, no name, no question asked, no patch applied. -/
structure Unmoved (r r' : Run) : Prop where
  disk : r'.disk = r.disk
  names : r'.names = r.names
  options : r'.options = r.options
  asked : r'.asked = r.asked
  patchesApplied : r'.totals.patchesApplied = r.totals.patchesApplied

theorem Unmoved.trans {r r' r'' : Run} (h : r.Unmoved r') (h' : r'.Unmoved r'') : r.Unmoved r'' :=
  ⟨h'.disk.trans h.disk, h'.names.trans h.names, h'.options.trans h.options,
    h'.asked.trans h.asked, h'.patchesApplied.trans h.patchesApplied⟩

section Visit

variable {r : Run} {root file source : Text} {found : Survey}
  (hsource : r.readText file = .ok source) (hsurvey : r.survey root file source = .ok found)
  (hfixes : found.fixes = [])

include hfixes in
theorem applyAll_patches_of_full (t : Text) : Patch.applyAll found.patches t = t := by
  rw [Survey.patches, hfixes]
  rfl

theorem writeText_same (r : Run) (file t : Text) : r.writeText (t ≠ t) file t = .ok r :=
  if_neg (by simp)

include hsource hsurvey hfixes

theorem visitFile_of_idle (hdestructured : found.destructured = []) :
    ∃ visit r', r.visitFile root file = (.ok visit, r') ∧ r.Unmoved r' := by
  unfold survey at hsurvey
  unfold visitFile
  simp only [hsource, hsurvey, applyAll_patches_of_full hfixes, writeText_same, hdestructured,
    collapseAll]
  refine ⟨_, _, rfl, rfl, rfl, rfl, rfl, ?_⟩
  have hlength : found.fixes.length = 0 := by rw [hfixes]; rfl
  simp [finish, remember, surveyed, hlength]

/-- A visit fails where the name of the first module to collapse stands in the text. -/
theorem visitFile_of_hasWord {e : ModulePath × Destructuring}
    {later : List (ModulePath × Destructuring)} (hdestructured : found.destructured = e :: later)
    {name : Text} (hname : r.names.name? e.1.key = some name) (hword : hasWord name source = true) :
    ∃ failure r', r.visitFile root file = (.error failure, r') := by
  generalize hstate : (r.surveyed (PathText.relativeTo root file) source found).remember
    found.plain = state
  have hnamed : state.nameFor e.1 e.2 = (.ok name, state) := by
    have hnames : state.names = r.names := by rw [← hstate]; rfl
    rw [nameFor, hnames, hname]
  have hfails : ∃ failure r', state.collapseAll (PathText.relativeTo root file)
      found.destructured source = (.error failure, r') := by
    rw [hdestructured, collapseAll, hnamed]
    dsimp only
    rw [Destructuring.collapse, if_pos hword]
    exact ⟨_, _, rfl⟩
  obtain ⟨failure, r', hfailure⟩ := hfails
  unfold survey at hsurvey
  unfold visitFile
  simp only [hsource, hsurvey, applyAll_patches_of_full hfixes, writeText_same, hstate, hfailure]
  exact ⟨failure, r', rfl⟩

end Visit

/-! What is left of a visit. -/

/-- A run that starts from what another one has left. -/
structure Resumes (again last : Run) : Prop where
  disk : again.disk = last.disk
  names : again.names.names = last.names.names
  owners : again.names.owners = last.names.owners
  options : again.options = last.options

theorem Resumes.of_unmoved {again after last : Run} (h : again.Resumes last)
    (hunmoved : again.Unmoved after) : after.Resumes last where
  disk := hunmoved.disk.trans h.disk
  names := by rw [hunmoved.names, h.names]
  owners := by rw [hunmoved.names, h.owners]
  options := hunmoved.options.trans h.options

/-- Whether no import of a visited file binds the name of another module, and there was no warning
about one that was dropped. -/
structure Settles (last : Run) (v : Visited) : Prop where
  admitted : ∀ s ∈ statementsOf v.source, s.Admitted v.site last.disk.probe last.names.owner?
  noneDropped : v.survey.warnings.tellOfDropped = false

section Left

variable {r last : Run} {v : Visited} (hmade : r.Made v last)
  (hforms : ∀ s ∈ statementsOf v.source,
    v.site.formOf last.disk.probe s.specifier = v.site.formOf r.disk.probe s.specifier)
  (hplain : ∀ s ∈ statementsOf v.source, IsPlain s.specifier)

include hmade hforms

omit hmade in
theorem completed_eq {s : Statement} (hs : s ∈ statementsOf v.source) :
    v.site.completed last.disk.probe s.specifier = v.site.completed r.disk.probe s.specifier := by
  unfold Site.completed
  rw [hforms s hs]

omit hmade in
theorem completed_statement_eq {s : Statement} (hs : s ∈ statementsOf v.source) :
    s.completed v.site last.disk.probe = s.completed v.site r.disk.probe := by
  rw [Statement.completed, completed_eq hforms hs, Statement.completed]

include hplain

/-- The statements of the patched text, with respect to the disk as it is in the end. -/
theorem Made.statementsOf_patched :
    List.Forall₂ (·.Revised (fun _ => v.site.completed last.disk.probe) ·)
      (statementsOf v.source) (statementsOf (v.survey.patched v.source)) := by
  refine forall₂_of_mem (Survey.statementsOf_applyAll hmade.surveys hplain) fun s hs s' _ h => ?_
  refine ⟨h.keyword, h.quote, ?_, h.binding⟩
  rw [h.specifier, completed_eq hforms hs]
  rfl

/-- What is left is at rest exactly if the visit has settled everything. -/
theorem Made.atRest_iff (hone : last.names.OneToOne) {final : Text}
    (hfinal : statementsOf final = v.results last.names) :
    (∀ s ∈ statementsOf final, s.AtRest v.site last.disk.probe last.names.owner?
        last.options.pathsOnly) ↔ last.Settles v := by
  have hiff := forall_mem_iff_of_forall₂ (hmade.statementsOf_patched hforms hplain)
    fun h => (Statement.atRest_collapsed_iff h hone last.options.pathsOnly hmade.named).symm
  have hdropped : v.survey.warnings.tellOfDropped = false ↔
      (last.options.pathsOnly = false → ∀ s ∈ statementsOf v.source, ∀ e,
        (s.completed v.site last.disk.probe).filing? v.site = some e →
          e ∈ v.survey.destructured) := by
    rw [Survey.ofSource_tellOfDropped hmade.surveys, hmade.precedes.options]
    refine imp_congr_right fun _ => forall₂_congr fun s hs => ?_
    rw [completed_statement_eq hforms hs]
    rfl
  rw [hfinal, Visited.results, List.forall_mem_map, ← hiff]
  constructor
  · intro h
    exact ⟨fun s hs => (h s hs).1, hdropped.mpr fun hnames s hs => (h s hs).2 hnames⟩
  · intro h s hs
    exact ⟨h.admitted s hs, fun hnames => hdropped.mp h.noneDropped hnames s hs⟩

/-- In what is left no specifier lacks anything. -/
theorem Made.fixes_eq_nil {final : Text}
    (hfinal : statementsOf final = v.results last.names) {found : Survey}
    (hfound : last.survey v.root v.file final = .ok found) : found.fixes = [] := by
  refine List.eq_nil_iff_forall_not_mem.mpr fun f hf => ?_
  obtain ⟨s, hs, hfix⟩ := (Survey.ofSource_fixes hfound f).mp hf
  rw [hfinal, Visited.results] at hs
  obtain ⟨s', hs', rfl⟩ := List.mem_map.mp hs
  obtain ⟨t, -, hrevised⟩ := exists_left_of_mem (hmade.statementsOf_patched hforms hplain) hs'
  have hnone := Statement.fix?_collapsed hrevised v.survey.destructured last.names
  exact absurd (hfix.symm.trans hnone) (by simp)

/-- Where braces are left that could be collapsed, the name of their module stands in the text. -/
theorem Made.hasWord_of_mem (hids : last.names.Identifiers) {final : Text}
    (hfinal : statementsOf final = v.results last.names) {found : Survey}
    (hfound : last.survey v.root v.file final = .ok found) {e : ModulePath × Destructuring}
    (he : e ∈ found.destructured) :
    ∃ name, last.names.name? e.1.key = some name ∧ hasWord name final = true := by
  have hnames : last.options.pathsOnly = false := by
    cases honly : last.options.pathsOnly with
    | false => rfl
    | true =>
      rw [Survey.destructured_of_pathsOnly hfound honly] at he
      contradiction
  have hrevised := hmade.statementsOf_patched hforms hplain
  -- the braces were dropped by the visit, since another import of their module was filed
  obtain ⟨s, hs, hfiling⟩ := Survey.exists_filing?_of_mem hfound he
  rw [hfinal, Visited.results] at hs
  obtain ⟨s', hs', rfl⟩ := List.mem_map.mp hs
  obtain ⟨t, ht, htrevised⟩ := exists_left_of_mem hrevised hs'
  have hfull := Statement.fix?_collapsed htrevised v.survey.destructured last.names
  have hleft : (s'.collapsed v.site v.survey.destructured last.names).filing? v.site = some e := by
    rw [← Statement.completed_of_fix? hfull]
    exact hfiling
  have hdropped := (Statement.of_filing?_collapsed hleft).1
  rw [Statement.filing?_of_revised htrevised, completed_statement_eq hforms ht] at hdropped
  obtain ⟨d, hd⟩ := Survey.exists_mem_of_filing? hmade.surveys
    (by rw [← hmade.precedes.options, hnames]) ht hdropped
  -- that other import has come to bind the name
  obtain ⟨name, hname⟩ := hmade.named _ hd
  obtain ⟨u, hu, hufiling⟩ := Survey.exists_filing?_of_mem hmade.surveys hd
  obtain ⟨u', hu', hurevised⟩ := exists_right_of_mem hrevised hu
  have hu'filing : u'.filing? v.site = some (e.1, d) := by
    rw [Statement.filing?_of_revised hurevised, completed_statement_eq hforms hu]
    exact hufiling
  have hbound : { u' with binding := .name name } ∈ statementsOf final := by
    rw [hfinal, Visited.results, ← Statement.collapsed_of_mem hu'filing hd hname]
    exact List.mem_map_of_mem hu'
  obtain ⟨i, hi, hstatement⟩ := List.mem_map.mp hbound
  have hinfix := (scans_importTexts final).infix_of_mem (List.mem_map_of_mem hi)
  have hwritten := written_textIn hi
  rw [hstatement] at hwritten
  refine ⟨name, ?_, hwritten.hasWord (hids _ _ hname) rfl hinfix⟩
  rw [(Survey.ofSource_destructured hmade.surveys _ hd).2, hname]

end Left

/-! Visits of a run that starts from what is left. -/

theorem Resumes.readText_eq {again last : Run} (h : again.Resumes last) (file : Text) :
    again.readText file = last.readText file := by
  rw [readText, h.disk, readText]

theorem Resumes.survey_eq {again last : Run} (h : again.Resumes last) (root file t : Text) :
    again.survey root file t = last.survey root file t := by
  have howner : again.names.owner? = last.names.owner? := by
    funext name
    rw [NameMap.owner?, h.owners, NameMap.owner?]
  rw [survey, howner, h.disk, h.options, survey]

theorem Resumes.name?_eq {again last : Run} (h : again.Resumes last) (module : ModulePath) :
    again.names.name? module = last.names.name? module := by
  rw [NameMap.name?, h.names, NameMap.name?]

section Again

variable {r last again : Run} {v : Visited} (hmade : r.Made v last)
  (hforms : ∀ s ∈ statementsOf v.source,
    v.site.formOf last.disk.probe s.specifier = v.site.formOf r.disk.probe s.specifier)
  (hplain : ∀ s ∈ statementsOf v.source, IsPlain s.specifier) (hone : last.names.OneToOne)
  (hhonours : last.Honours v) (hagain : again.Resumes last)

include hmade hforms hplain hone hhonours hagain

theorem visitFile_of_settles (hsettles : last.Settles v) :
    ∃ visit after, again.visitFile v.root v.file = (.ok visit, after) ∧ again.Unmoved after := by
  obtain ⟨final, hread, hfinal⟩ := hhonours
  have hrest := (hmade.atRest_iff hforms hplain hone hfinal).mpr hsettles
  obtain ⟨found, hfound, hfixes, hdestructured⟩ := Survey.ofSource_idle_iff.mpr hrest
  rw [← hagain.readText_eq] at hread
  have hsurvey : again.survey v.root v.file final = .ok found := by
    rw [hagain.survey_eq]
    exact hfound
  exact visitFile_of_idle hread hsurvey hfixes hdestructured

theorem settles_of_visitFile (hids : last.names.Identifiers) {visit : Visit} {after : Run}
    (h : again.visitFile v.root v.file = (.ok visit, after)) : last.Settles v := by
  obtain ⟨final, hread, hfinal⟩ := hhonours
  obtain ⟨source, found, -, -, -, hsource, hfound, -⟩ := visitFile_ok h
  rw [hagain.readText_eq, hread] at hsource
  cases hsource
  have hsurvey := hagain.survey_eq v.root v.file final ▸ hfound
  have hfixes := hmade.fixes_eq_nil hforms hplain hfinal hsurvey
  have hdestructured : found.destructured = [] := by
    cases hall : found.destructured with
    | nil => rfl
    | cons e later =>
      obtain ⟨name, hname, hword⟩ := hmade.hasWord_of_mem hforms hplain hids hfinal hsurvey
        (hall ▸ List.mem_cons_self)
      rw [← hagain.name?_eq] at hname
      obtain ⟨failure, after', hfails⟩ := visitFile_of_hasWord
        (hagain.readText_eq v.file ▸ hread) hfound hfixes hall hname hword
      rw [h] at hfails
      cases hfails
  exact (hmade.atRest_iff hforms hplain hone hfinal).mp
    (Survey.ofSource_idle_iff.mp ⟨found, hsurvey, hfixes, hdestructured⟩)

end Again

/-! The whole run. -/

/-- Whether a run leaves it as it was which source files there are and what specifiers lack. -/
structure Undisturbed (r last : Run) (roots : List Text) : Prop where
  listing? : ∀ root ∈ roots, last.listing? root = r.listing? root
  formOf : ∀ v ∈ r.visited roots, ∀ s ∈ statementsOf v.source,
    v.site.formOf last.disk.probe s.specifier = v.site.formOf r.disk.probe s.specifier

theorem listing?_eq_of_bare {r r' : Run} (hdisk : r'.disk.bare = r.disk.bare)
    (hoptions : r'.options = r.options) (root : Text) : r'.listing? root = r.listing? root := by
  have hcwd : r'.disk.cwdText = r.disk.cwdText := by
    rw [Disk.cwdText, Disk.cwd_eq_of_bare hdisk, Disk.cwdText]
  unfold listing?
  simp only [hcwd, hoptions, Disk.sourcesUnder_eq_of_bare hdisk]

section Whole

variable {r last : Run} {roots : List Text} {totals : Totals} (hsorted : r.disk.isSorted = true)

include hsorted in
theorem bare_between {s : Run} (hs : r.Precedes s) (hlast : s.Precedes last) :
    s.disk.bare = r.disk.bare ∨ s.disk.bare = last.disk.bare := by
  have hfirst := hs.disk hsorted
  have hthen := hlast.disk hfirst.sorted
  rw [hs.path?] at hthen
  exact hfirst.bare_or_bare hthen

variable (hrun : r.visitRoots roots = (.ok totals, last))
  (hview : r.names.store.path? ≠ none → r.Undisturbed last roots)

include hrun hsorted hview

/-- Only the file that names are kept in can disturb anything. -/
theorem undisturbed : r.Undisturbed last roots := by
  have hprecedes := visitRoots_precedes hrun
  cases hpath : r.names.store.path? with
  | some path => exact hview (by simp [hpath])
  | none =>
    have hbare : last.disk.bare = r.disk.bare := by
      rcases (hprecedes.disk hsorted).shape with hbare | ⟨path, hsome, -⟩
      · exact hbare
      · rw [hpath] at hsome
        contradiction
    refine ⟨fun root _ => listing?_eq_of_bare hbare hprecedes.options root, fun v _ s _ => ?_⟩
    rw [Disk.probe_eq_of_bare hbare]

theorem listing?_between {s : Run} (hs : r.Precedes s) (hlast : s.Precedes last) {root : Text}
    (hroot : root ∈ roots) : last.listing? root = s.listing? root := by
  rcases bare_between hsorted hs hlast with hbare | hbare
  · rw [listing?_eq_of_bare hbare hs.options, (undisturbed hsorted hrun hview).listing? root hroot]
  · rw [listing?_eq_of_bare hbare hlast.options.symm]

theorem formOf_between {s : Run} (hs : r.Precedes s) (hlast : s.Precedes last) {v : Visited}
    (hv : v ∈ r.visited roots) : ∀ t ∈ statementsOf v.source,
      v.site.formOf last.disk.probe t.specifier = v.site.formOf s.disk.probe t.specifier := by
  intro t ht
  rcases bare_between hsorted hs hlast with hbare | hbare
  · rw [Disk.probe_eq_of_bare hbare, (undisturbed hsorted hrun hview).formOf v hv t ht]
  · rw [Disk.probe_eq_of_bare hbare]

end Whole

/-! All files and roots again. -/

/-- Whether a visit of a file from what a run has left finds nothing to do. -/
def Idles (last : Run) (root file : Text) : Prop :=
  ∀ again : Run, again.Resumes last →
    ∃ visit after, again.visitFile root file = (.ok visit, after) ∧ again.Unmoved after

theorem Resumes.counted {again last : Run} (h : again.Resumes last) (root : Text)
    (files : List Text) : (again.counted root files).Resumes last :=
  h.of_unmoved ⟨rfl, rfl, rfl, rfl, rfl⟩

theorem Resumes.listing?_eq {again last : Run} (h : again.Resumes last) (root : Text) :
    again.listing? root = last.listing? root :=
  listing?_eq_of_bare (by rw [h.disk]) h.options root

theorem visitFiles_of_idles {last again : Run} {root : Text} {files : List Text}
    (hidles : ∀ file ∈ files, last.Idles root file) (hagain : again.Resumes last) :
    ∃ after, again.visitFiles root files = (.ok (), after) ∧ again.Unmoved after := by
  induction files generalizing again with
  | nil => exact ⟨again, rfl, rfl, rfl, rfl, rfl, rfl⟩
  | cons file files ih =>
    obtain ⟨hfile, hfiles⟩ := List.forall_mem_cons.mp hidles
    obtain ⟨visit, next, hvisit, hunmoved⟩ := hfile again hagain
    obtain ⟨after, hafter, hrest⟩ := ih hfiles (hagain.of_unmoved hunmoved)
    exact ⟨after, by rw [visitFiles, hvisit]; exact hafter, hunmoved.trans hrest⟩

theorem visitRoots_of_idles {last again : Run} {roots : List Text}
    (hidles : ∀ root ∈ roots, ∃ root' files, last.listing? root = some (root', files) ∧
      ∀ file ∈ files, last.Idles root' file) (hagain : again.Resumes last) :
    ∃ totals after, again.visitRoots roots = (.ok totals, after) ∧ again.Unmoved after := by
  induction roots generalizing again with
  | nil => exact ⟨again.totals, again, rfl, rfl, rfl, rfl, rfl, rfl⟩
  | cons root roots ih =>
    obtain ⟨⟨root', files, hlisting, hfiles⟩, hroots⟩ := List.forall_mem_cons.mp hidles
    rw [← hagain.listing?_eq] at hlisting
    obtain ⟨next, hnext, hunmoved⟩ := visitFiles_of_idles hfiles (hagain.counted root' files)
    have hcounted : again.Unmoved (again.counted root' files) := ⟨rfl, rfl, rfl, rfl, rfl⟩
    have hfirst := hcounted.trans hunmoved
    obtain ⟨totals, after, hafter, hrest⟩ := ih hroots (hagain.of_unmoved hfirst)
    refine ⟨totals, after, ?_, hfirst.trans hrest⟩
    rw [visitRoots, visitRoot_of_listing? hlisting, hnext]
    exact hafter

/-- If a visit that succeeds is always idle, then all visits of a run that succeeds are. -/
theorem idles_of_visitFiles {last again after : Run} {root : Text} {files : List Text}
    (hback : ∀ file ∈ files, ∀ (again : Run) visit after, again.Resumes last →
      again.visitFile root file = (.ok visit, after) → last.Idles root file)
    (hagain : again.Resumes last) (h : again.visitFiles root files = (.ok (), after)) :
    (∀ file ∈ files, last.Idles root file) ∧ after.Resumes last := by
  induction files generalizing again with
  | nil =>
    cases h
    exact ⟨by simp, hagain⟩
  | cons file files ih =>
    obtain ⟨hfile, hfiles⟩ := List.forall_mem_cons.mp hback
    obtain ⟨visit, hvisit, hrest⟩ := visitFiles_cons h
    have hidles := hfile again visit _ hagain hvisit
    obtain ⟨visit', next, hnext, hunmoved⟩ := hidles again hagain
    have hresumes : (again.visitFile root file).2.Resumes last := by
      rw [hnext]
      exact hagain.of_unmoved hunmoved
    obtain ⟨hothers, hafter⟩ := ih hfiles hresumes hrest
    exact ⟨List.forall_mem_cons.mpr ⟨hidles, hothers⟩, hafter⟩

theorem idles_of_visitRoots {last again after : Run} {roots : List Text} {totals : Totals}
    (hback : ∀ root ∈ roots, ∀ root' files, last.listing? root = some (root', files) →
      ∀ file ∈ files, ∀ (again : Run) visit after, again.Resumes last →
        again.visitFile root' file = (.ok visit, after) → last.Idles root' file)
    (hagain : again.Resumes last) (h : again.visitRoots roots = (.ok totals, after)) :
    ∀ root ∈ roots, ∀ root' files, last.listing? root = some (root', files) →
      ∀ file ∈ files, last.Idles root' file := by
  induction roots generalizing again with
  | nil => simp
  | cons root roots ih =>
    obtain ⟨hroot, hroots⟩ := List.forall_mem_cons.mp hback
    obtain ⟨root', files, next, hlisting, hnext, hrest, -⟩ := visitRoots_cons h
    rw [hagain.listing?_eq] at hlisting
    obtain ⟨hidles, hresumes⟩ := idles_of_visitFiles (hroot root' files hlisting)
      (hagain.counted root' files) hnext
    refine List.forall_mem_cons.mpr ⟨fun root'' files' hlisting' => ?_, ih hroots hresumes hrest⟩
    rw [hlisting] at hlisting'
    cases hlisting'
    exact hidles

/-- A run over what a successful run has left finds nothing to do, if no import binds the name of
another module and none that could be collapsed was dropped; where names are identifiers, it fails
otherwise. -/
theorem visitRoots_again {r last again : Run} {roots : List Text} {totals : Totals}
    (hrun : r.visitRoots roots = (.ok totals, last)) (hagain : again.Resumes last)
    (hsorted : r.disk.isSorted = true) (hone : r.names.OneToOne)
    (hplain : ∀ v ∈ r.visited roots, ∀ s ∈ statementsOf v.source, IsPlain s.specifier)
    (hhonours : ∀ v ∈ r.visited roots, last.Honours v)
    (hview : r.names.store.path? ≠ none → r.Undisturbed last roots) :
    ((∀ v ∈ r.visited roots, last.Settles v) →
      ∃ totals after, again.visitRoots roots = (.ok totals, after) ∧ again.Unmoved after) ∧
    (r.names.Identifiers → ∀ totals after, again.visitRoots roots = (.ok totals, after) →
      ∀ v ∈ r.visited roots, last.Settles v) := by
  have hlastOne := (visitRoots_precedes hrun).oneToOne hone
  have hidles {v : Visited} (hv : v ∈ r.visited roots) (hsettles : last.Settles v) :
      last.Idles v.root v.file := by
    obtain ⟨⟨s, hs, hmade⟩, -⟩ := mem_visited hrun hv
    intro again hagain
    exact visitFile_of_settles hmade (formOf_between hsorted hrun hview hs hmade.precedes hv)
      (hplain v hv) hlastOne (hhonours v hv) hagain hsettles
  have hlisted {root : Text} (hroot : root ∈ roots) : ∃ root' files,
      last.listing? root = some (root', files) ∧
        ∀ file ∈ files, ∃ v ∈ r.visited roots, v.root = root' ∧ v.file = file := by
    obtain ⟨s, root', files, hs, hlast, hlisting, hall⟩ := exists_visited hrun hroot
    exact ⟨root', files, (listing?_between hsorted hrun hview hs hlast hroot).trans hlisting, hall⟩
  constructor
  · intro hsettles
    refine visitRoots_of_idles (fun root hroot => ?_) hagain
    obtain ⟨root', files, hlisting, hall⟩ := hlisted hroot
    refine ⟨root', files, hlisting, fun file hfile => ?_⟩
    obtain ⟨v, hv, rfl, rfl⟩ := hall file hfile
    exact hidles hv (hsettles v hv)
  · intro hids totals' after hok v hv
    have hlastIds := (visitRoots_precedes hrun).identifiers hids
    have hsettles {v : Visited} (hv : v ∈ r.visited roots) {again : Run}
        (hagain : again.Resumes last) {visit : Visit} {after : Run}
        (h : again.visitFile v.root v.file = (.ok visit, after)) : last.Settles v := by
      obtain ⟨⟨s, hs, hmade⟩, -⟩ := mem_visited hrun hv
      exact settles_of_visitFile hmade
        (formOf_between hsorted hrun hview hs hmade.precedes hv) (hplain v hv) hlastOne
        (hhonours v hv) hagain hlastIds h
    have hall := idles_of_visitRoots (fun root hroot root' files hlisting file hfile again visit
      after hagain hvisit => ?_) hagain hok
    · obtain ⟨-, root, hroot, s, files, hs, hlast, hlisting, hfile⟩ := mem_visited hrun hv
      rw [← listing?_between hsorted hrun hview hs hlast hroot] at hlisting
      obtain ⟨visit, next, hvisit, -⟩ :=
        hall root hroot v.root files hlisting v.file hfile again hagain
      exact hsettles hv hagain hvisit
    · obtain ⟨root'', files', hlisting', hvisited⟩ := hlisted hroot
      rw [hlisting] at hlisting'
      cases hlisting'
      obtain ⟨w, hw, rfl, rfl⟩ := hvisited file hfile
      exact hidles hw (hsettles hw hagain hvisit)

/-- A run over a file that destructures one module and imports another one plainly. -/
def overSettled : Run :=
  SuccessfulVisit.overFile "let { a } = require('./m');\nlet n = require('./n.js');\na();\n"

/-- The specifier is completed and the import collapsed, and then there is nothing left to do: the
respondent of the second run, which can only fail, is not asked. -/
theorem visitRoots_again_settled :
    ∃ totals last, overSettled.visitRoots [['.']] = (.ok totals, last) ∧
      last.readText "/a.js".toList =
        .ok "let M = require('./m.js');\nlet n = require('./n.js');\nM.a();\n".toList ∧
      ∃ totals' after,
        { last with respondent := .terminal }.visitRoots [['.']] = (.ok totals', after) ∧
          after.disk = last.disk ∧ after.asked = last.asked := by
  have hown : ∀ v ∈ overSettled.visited [['.']],
      Collapse.isClearAll (v.steps (overSettled.visitRoots [['.']]).2) v.patched = true ∧
        isFlat none v.patched = true ∧
        ∀ i ∈ importsOf v.patched, v.OnlyOwn (overSettled.visitRoots [['.']]).2 i := by
    decide +kernel
  have hadmitted : ∀ v ∈ overSettled.visited [['.']], ∀ s ∈ statementsOf v.source,
      s.Admitted v.site (overSettled.visitRoots [['.']]).2.disk.probe
        (overSettled.visitRoots [['.']]).2.names.owner? := by decide +kernel
  have htext : ((overSettled.visitRoots [['.']]).2.readText "/a.js".toList).toOption =
      some "let M = require('./m.js');\nlet n = require('./n.js');\nM.a();\n".toList := by
    decide +kernel
  obtain ⟨totals, hrun⟩ := exists_ok (x := overSettled.visitRoots [['.']]) (by decide +kernel)
  generalize (overSettled.visitRoots [['.']]).2 = last at hrun hown hadmitted htext
  have hopened : NameMap.ofStore (.memory .empty 0) overSettled.disk = .ok overSettled.names := rfl
  have hagain : { last with respondent := .terminal }.Resumes last := ⟨rfl, rfl, rfl, rfl⟩
  have hplain : ∀ v ∈ overSettled.visited [['.']], ∀ s ∈ statementsOf v.source,
      (s.specifier.all fun c => !isQuote c && c != '(') = true := by decide +kernel
  have hdistinct : (overSettled.attempts [['.']]).Pairwise fun a b =>
      overSettled.disk.Distinct a.file b.file := by decide +kernel
  have hhonours : ∀ v ∈ overSettled.visited [['.']], last.Honours v := by
    intro v hv
    obtain ⟨hclear, hflat, honly⟩ := hown v hv
    exact (honours_iff hrun (fun a _ => apart_of_path?_eq_none rfl a.file) hdistinct hv
      (SuccessfulVisit.identifiers_overFile _) hclear hflat).mpr honly
  have hdropped : ∀ v ∈ overSettled.visited [['.']],
      v.survey.warnings.tellOfDropped = false := by decide +kernel
  obtain ⟨totals', after, hrun', hunmoved⟩ := (visitRoots_again hrun hagain (by decide +kernel)
    (NameMap.ofStore_oneToOne hopened) (fun v hv s hs => isPlain_of_all (hplain v hv s hs))
    hhonours (fun hstore => absurd rfl hstore)).1 fun v hv => ⟨hadmitted v hv, hdropped v hv⟩
  exact ⟨totals, last, hrun, eq_ok_of_toOption htext, totals', after, hrun', hunmoved.disk,
    hunmoved.asked⟩

/-- A run over a file that destructures one module twice, in different ways. -/
def overRedeclared : Run :=
  SuccessfulVisit.overFile "let { a } = require('./m.js');\nlet { b } = require('./m.js');\n"

/-- It is not so that a second run always succeeds: the import that was dropped is now the first of
its module, and the name of the module is in use. -/
theorem visitRoots_again_redeclared :
    ¬ ∀ (r last again : Run) (roots : List Text) (totals : Totals),
      r.visitRoots roots = (.ok totals, last) → again.Resumes last →
        ∃ totals' after, again.visitRoots roots = (.ok totals', after) ∧ again.Unmoved after := by
  intro h
  have hfails : ((overRedeclared.visitRoots [['.']]).2.visitRoots [['.']]).1.toOption.isSome =
      false := by decide +kernel
  obtain ⟨totals, hrun⟩ := exists_ok (x := overRedeclared.visitRoots [['.']]) (by decide +kernel)
  generalize (overRedeclared.visitRoots [['.']]).2 = last at hrun hfails
  obtain ⟨totals', after, hagain, -⟩ := h _ last last _ totals hrun ⟨rfl, rfl, rfl, rfl⟩
  rw [hagain] at hfails
  cases hfails

end Run
end Namespacer
