import Namespacer.Proofs.Import.Fresh
import Namespacer.Proofs.Import.Rest
import Namespacer.Proofs.Run.Failing

/-! What a run leaves of the imports that it finds. Visits are to complete their specifiers and to
put names in place of the filed braces, and to change nothing else about them. They do so exactly if
of the collapses in a file only its own finds something in an import, and that just the braces. -/
namespace Namespacer

open Text

/-- Whether something holds of all ways to cut a list at one of its elements. -/
def decidableCuts {α : Type} (l : List α) (P : List α → α → List α → Prop)
    [∀ earlier a later, Decidable (P earlier a later)] :
    Decidable (∀ earlier a later, l = earlier ++ a :: later → P earlier a later) :=
  match l with
  | [] => isTrue (by simp)
  | first :: rest =>
    have : Decidable (∀ earlier a later, rest = earlier ++ a :: later →
        P (first :: earlier) a later) := decidableCuts rest fun earlier => P (first :: earlier)
    decidable_of_iff (P [] first rest ∧ ∀ earlier a later, rest = earlier ++ a :: later →
        P (first :: earlier) a later) <| by
      constructor
      · rintro ⟨hfirst, hrest⟩ earlier a later hcut
        cases earlier with
        | nil =>
          cases hcut
          exact hfirst
        | cons e earlier =>
          cases hcut
          exact hrest earlier a later rfl
      · intro hall
        exact ⟨hall [] first rest rfl, fun earlier a later hcut =>
          hall (first :: earlier) a later (congrArg _ hcut)⟩

namespace Run

/-- What a visit is to make of the imports of a file: their specifiers are completed, the filed ones
bind the names of their modules, and nothing else about them changes. -/
def Visited.results (v : Visited) (names : NameMap) : List Statement :=
  (statementsOf (v.survey.patched v.source)).map
    (·.collapsed v.site v.survey.destructured names)

/-- Whether in the end the imports of a visited file are what the visit is to make of them. -/
def Honours (last : Run) (v : Visited) : Prop :=
  ∃ final, last.readText v.file = .ok final ∧ statementsOf final = v.results last.names

def Visited.patched (v : Visited) : Text := v.survey.patched v.source

/-- The collapses that a visit makes, with the names as they are in the end. -/
def Visited.steps (v : Visited) (last : Run) : List Collapse :=
  last.collapses v.survey.destructured

/-- Whether of the collapses with `e` among them only that one finds something in the text of an
import, and just the braces that it looks for. -/
def OnlyTakes (last : Run) (specifier w : Text) (earlier : List (ModulePath × Destructuring))
    (e : ModulePath × Destructuring) (later : List (ModulePath × Destructuring)) : Prop :=
  let w' := replaceAll e.2.binding (last.nameOf e.1) w
  (∀ e' ∈ earlier, e'.2.LeavesAlone w) ∧ ¬ e.2.binding <:+: specifier ∧
    (∀ symbol ∈ e.2.symbols, usesBare symbol w' = false) ∧ ∀ e' ∈ later, e'.2.LeavesAlone w'

instance (last : Run) (specifier w : Text) (earlier : List (ModulePath × Destructuring))
    (e : ModulePath × Destructuring) (later : List (ModulePath × Destructuring)) :
    Decidable (last.OnlyTakes specifier w earlier e later) :=
  inferInstanceAs (Decidable (_ ∧ _))

/-- Whether the collapses that a visit makes leave an import alone, except that its own, if it has
one, takes its braces. -/
structure Visited.OnlyOwn (v : Visited) (last : Run) (i : Import) : Prop where
  left : (∀ e ∈ v.survey.destructured, i.toStatement.filing? v.site ≠ some e) →
    ∀ e ∈ v.survey.destructured, e.2.LeavesAlone (i.textIn v.patched)
  taken : ∀ earlier e later, v.survey.destructured = earlier ++ e :: later →
    i.toStatement.filing? v.site = some e →
      last.OnlyTakes i.specifier (i.textIn v.patched) earlier e later

instance (v : Visited) (last : Run) (i : Import) : Decidable (v.OnlyOwn last i) :=
  have := decidableCuts v.survey.destructured fun earlier e later =>
    i.toStatement.filing? v.site = some e →
      last.OnlyTakes i.specifier (i.textIn v.patched) earlier e later
  decidable_of_iff (_ ∧ _) ⟨fun h => ⟨h.1, h.2⟩, fun h => ⟨h.left, h.taken⟩⟩

/-! One file. -/

section File

variable {last : Run} {v : Visited}

theorem onlyTakes_iff {specifier w : Text} {earlier later : List (ModulePath × Destructuring)}
    {e : ModulePath × Destructuring} :
    last.OnlyTakes specifier w earlier e later ↔
      let c : Collapse := ⟨e.2, last.nameOf e.1⟩
      (∀ c' ∈ last.collapses earlier, c'.record.LeavesAlone w) ∧
        ¬ c.record.binding <:+: specifier ∧
        (∀ symbol ∈ c.record.symbols, usesBare symbol (c.bound w) = false) ∧
        ∀ c' ∈ last.collapses later, c'.record.LeavesAlone (c.bound w) := by
  dsimp only
  rw [forall_mem_collapses last earlier fun d => d.LeavesAlone w,
    forall_mem_collapses last later fun d => d.LeavesAlone _]
  rfl

theorem steps_of_cut {earlier later : List (ModulePath × Destructuring)}
    {e : ModulePath × Destructuring} (hcut : v.survey.destructured = earlier ++ e :: later) :
    v.steps last = last.collapses earlier ++ ⟨e.2, last.nameOf e.1⟩ :: last.collapses later := by
  simp [Visited.steps, hcut, collapses]

theorem forall_leavesAlone_steps {w : Text} :
    (∀ c ∈ v.steps last, c.record.LeavesAlone w) ↔
      ∀ e ∈ v.survey.destructured, e.2.LeavesAlone w :=
  forall_mem_collapses last _ fun d => d.LeavesAlone w

variable (hproper : ∀ c ∈ v.steps last, c.Proper)
  (hnamed : ∀ e ∈ v.survey.destructured, last.names.name? e.1 = some (last.nameOf e.1))

include hproper hnamed

theorem Visited.OnlyOwn.written {i : Import} (hi : i ∈ importsOf v.patched)
    (h : v.OnlyOwn last i) :
    Collapse.staysImport (v.steps last) (i.textIn v.patched) = true ∧
      (i.toStatement.collapsed v.site v.survey.destructured last.names).Written
        (Collapse.withinAll (v.steps last) (i.textIn v.patched)) := by
  have hw := written_textIn hi
  by_cases hfiled : ∃ e ∈ v.survey.destructured, i.toStatement.filing? v.site = some e
  · obtain ⟨e, he, hfiling⟩ := hfiled
    obtain ⟨earlier, later, hcut⟩ := List.append_of_mem he
    obtain ⟨halone, hspecifier, hbare, halone'⟩ := onlyTakes_iff.mp (h.taken _ _ _ hcut hfiling)
    rw [Statement.collapsed_of_mem hfiling he (hnamed e he)]
    rw [steps_of_cut hcut] at hproper ⊢
    exact (hproper _ (by simp)).stays_own hw (Statement.binding_of_filing? hfiling) hproper halone
      hspecifier hbare halone'
  · have hnot : ∀ e ∈ v.survey.destructured, i.toStatement.filing? v.site ≠ some e :=
      fun e he hfiling => hfiled ⟨e, he, hfiling⟩
    have halone : ∀ c ∈ v.steps last, c.record.LeavesAlone (i.textIn v.patched) :=
      forall_leavesAlone_steps.mpr (h.left hnot)
    rw [Statement.collapsed_of_not_filed hnot]
    exact ⟨Collapse.staysImport_of_leavesAlone hproper hw halone,
      (Collapse.written_withinAll_iff hproper hw).mpr halone⟩

variable (hclear : Collapse.isClearAll (v.steps last) v.patched = true)
  (hfresh : Collapse.namesFresh (v.steps last) v.patched = true)

include hclear hfresh

/-- Where all imports stay, what one has become tells what the collapses have found in it. -/
theorem onlyOwn_of_written
    (hstays : ∀ j ∈ importsOf v.patched,
      Collapse.staysImport (v.steps last) (j.textIn v.patched) = true)
    {i : Import} (hi : i ∈ importsOf v.patched)
    (hwritten : (i.toStatement.collapsed v.site v.survey.destructured last.names).Written
      (Collapse.withinAll (v.steps last) (i.textIn v.patched))) : v.OnlyOwn last i := by
  have hw := written_textIn hi
  constructor
  · intro hnot
    rw [Statement.collapsed_of_not_filed hnot] at hwritten
    exact forall_leavesAlone_steps.mp ((Collapse.written_withinAll_iff hproper hw).mp hwritten)
  · intro earlier e later hcut hfiling
    have he : e ∈ v.survey.destructured := by simp [hcut]
    rw [Statement.collapsed_of_mem hfiling he (hnamed e he)] at hwritten
    rw [steps_of_cut hcut] at hproper hclear hfresh hstays hwritten
    refine onlyTakes_iff.mpr ((Collapse.written_name_iff (hproper _ (by simp)) hw
      (Statement.binding_of_filing? hfiling) hproper fun _ => ?_).mp hwritten)
    exact Collapse.binding_ne_name hproper hclear hfresh (List.append_nil _).symm
      (List.forall_mem_map.mpr hstays) (List.mem_map_of_mem hi)

theorem honours_iff_of_readText (hflat : isFlat none v.patched = true)
    (htext : last.readText v.file = .ok (Collapse.appliedAll (v.steps last) v.patched)) :
    last.Honours v ↔ ∀ i ∈ importsOf v.patched, v.OnlyOwn last i := by
  have hhonours : last.Honours v ↔
      statementsOf (Collapse.appliedAll (v.steps last) v.patched) = v.results last.names := by
    constructor
    · rintro ⟨final, hfinal, hstatements⟩
      cases htext.symm.trans hfinal
      exact hstatements
    · exact fun hstatements => ⟨_, htext, hstatements⟩
  have hresults : v.results last.names = (importsOf v.patched).map fun i =>
      i.toStatement.collapsed v.site v.survey.destructured last.names := List.map_map
  rw [hhonours, hresults, statementsOf,
    Collapse.statements_appliedAll_iff hproper hclear hflat]
  constructor
  · intro hall i hi
    exact onlyOwn_of_written hproper hnamed hclear hfresh (fun j hj => (hall j hj).1) hi
      (hall i hi).2
  · exact fun hall i hi => (hall i hi).written hproper hnamed hi

end File

/-! A whole run. -/

theorem Made.name?_eq {r last : Run} {v : Visited} (h : r.Made v last) :
    ∀ e ∈ v.survey.destructured, last.names.name? e.1 = some (last.nameOf e.1) := by
  intro e he
  obtain ⟨name, hname⟩ := h.named e he
  rw [nameOf, (Survey.ofSource_destructured h.surveys e he).2, hname]
  rfl

/-- The names that a visit has put in are those that the modules have in the end. -/
theorem Made.steps_eq {r r' last : Run} {v : Visited} (h : r.Made v r')
    (hlast : r'.Precedes last) : v.steps last = v.steps r' := by
  refine List.map_congr_left fun e he => ?_
  have hkept := hlast.name? _ _ (h.name?_eq e he)
  rw [(h.trans hlast).name?_eq e he, Option.some.injEq] at hkept
  rw [hkept]

section Whole

variable {r last : Run} {roots : List Text} {totals : Totals}
  (hrun : r.visitRoots roots = (.ok totals, last))
  (hapart : ∀ a ∈ r.attempts roots, r.Apart a.file)
  (hdistinct : (r.attempts roots).Pairwise fun a b => r.disk.Distinct a.file b.file)
  {v : Visited} (hv : v ∈ r.visited roots)

include hrun hapart hdistinct hv

/-- What is found in a file is found by a visit, and in the end the file reads as that visit left it,
since all files are apart from one another and from the one that names are kept in. -/
theorem exists_visit : ∃ s s' visit, r.Precedes s ∧ s'.Precedes last ∧
    s.visitFile v.root v.file = (.ok visit, s') ∧ s.readText v.file = .ok v.source ∧
    s.Made v s' ∧ last.readText v.file = s'.readText v.file := by
  obtain ⟨a, ha, hvisited⟩ := exists_attempt hrun hv
  obtain ⟨hroot, hfile, hsource, hsurvey⟩ := visited?_eq_some hvisited
  obtain ⟨visit, hresult⟩ := attempts_ok hrun a ha
  have hvisit := a.visitFile_eq
  rw [hresult] at hvisit
  obtain ⟨hbefore, hafter⟩ := ((attempts_prints hrun).precedes (attempts_ok hrun)).2 a ha
  obtain ⟨w, hw, -, -, hmade⟩ := visitFile_made hvisit
  obtain rfl : v = w := Option.some.inj (hvisited.symm.trans hw)
  have hkept := (attempts_run hrun).read_after hapart hdistinct a ha
  rw [hroot, hfile]
  refine ⟨a.before, a.after, visit, hbefore, hafter, hvisit, hsource, hmade, ?_⟩
  rw [readText, hkept, readText]

/-- Where no statement stands inside another and collapsing makes none of other text, the imports of
a file are in the end what the visit is to make of them exactly if the collapses leave each of them
alone, except that its own takes its braces. -/
theorem honours_iff (hids : r.names.Identifiers)
    (hclear : Collapse.isClearAll (v.steps last) v.patched = true)
    (hflat : isFlat none v.patched = true) :
    last.Honours v ↔ ∀ i ∈ importsOf v.patched, v.OnlyOwn last i := by
  obtain ⟨s, s', visit, hs, hlast, hvisit, hsource, hmade, hkept⟩ :=
    exists_visit hrun hapart hdistinct hv
  obtain ⟨htext, -, hfresh, hproper⟩ :=
    visitFile_text hvisit hsource hmade.surveys (hs.identifiers hids)
  have hsteps := hmade.steps_eq hlast
  unfold Visited.steps at hsteps
  rw [← hsteps] at htext hfresh hproper
  exact honours_iff_of_readText hproper (hmade.trans hlast).name?_eq hclear hfresh hflat
    (hkept.trans htext)

/-- A run that only looks at specifiers files no braces, so it completes specifiers and does nothing
else to imports. -/
theorem honours_of_pathsOnly (honly : r.options.pathsOnly = true) : last.Honours v := by
  obtain ⟨s, s', visit, hs, -, hvisit, hsource, hmade, hkept⟩ :=
    exists_visit hrun hapart hdistinct hv
  have hnone : v.survey.destructured = [] :=
    Survey.destructured_of_pathsOnly hmade.surveys (hs.options ▸ honly)
  obtain ⟨source, found, patched, after, t, hsource', hfound, -, -, hcollapse, -, -, htext⟩ :=
    visitFile_ok hvisit
  cases hsource.symm.trans hsource'
  cases hmade.surveys.symm.trans hfound
  rw [hnone, collapseAll] at hcollapse
  obtain ⟨hdone, -⟩ := Prod.mk.inj hcollapse
  obtain ⟨-, rfl⟩ := Prod.mk.inj (Except.ok.inj hdone)
  refine ⟨_, hkept.trans htext, ?_⟩
  have hsame (t : Statement) : t.collapsed v.site [] last.names = t :=
    Statement.collapsed_of_not_filed (by simp)
  simp [Visited.results, hnone, hsame]

end Whole
end Run
end Namespacer
