import Mathlib.Data.List.DropRight
import Namespacer.Proofs.Disk.Found
import Namespacer.Proofs.Import.Braces
import Namespacer.Proofs.Run.Attempt

/-! Names that are suggested. The path of a module suggests an identifier or nothing at all. So a
run that gets no answers is never refused for a name that is no identifier, and it is refused for
want of a name only where the path of a module suggests none. -/
namespace Namespacer

open Text

theorem Text.trim_eq_nil_iff {t : Text} : trim t = [] ↔ t.all isBlank = true := by
  have hend : trim t = [] ↔ ∀ c ∈ t.dropWhile isBlank, isBlank c = true :=
    List.rdropWhile_eq_nil_iff
  rw [hend, ← List.dropWhile_eq_nil_iff, List.dropWhile_idempotent, List.dropWhile_eq_nil_iff,
    List.all_eq_true]

theorem isIdentifier_append {s t : Text} (hs : isIdentifier s = true)
    (ht : t.all isIdentifierChar = true) : isIdentifier (s ++ t) = true := by
  cases s with
  | nil => contradiction
  | cons c s =>
    rw [isIdentifier, Bool.and_eq_true] at hs
    rw [List.cons_append, isIdentifier, List.all_append, hs.1, hs.2, ht]
    rfl

namespace ModuleName

theorem sanitized_cases (t : Text) : sanitized t = [] ∨ isIdentifier (sanitized t) = true := by
  unfold sanitized
  have hkept : ∀ c ∈ t.filter isIdentifierChar, isIdentifierChar c = true := by simp
  generalize t.filter isIdentifierChar = kept at hkept
  cases kept with
  | nil => exact .inl rfl
  | cons c rest =>
    obtain ⟨hc, hrest⟩ := List.forall_mem_cons.mp hkept
    right
    dsimp only
    split
    · simpa [isIdentifier, isIdentifierStart, hc] using hrest
    · next hdigit =>
      have hstart : isIdentifierStart c = true := by
        simpa [isIdentifierChar, isIdentifierStart, Char.isAlphanum, hdigit] using hc
      simpa [isIdentifier, hstart] using hrest

theorem categorySuffix_cases (category : Text) :
    categorySuffix category = [] ∨ isIdentifier (categorySuffix category) = true := by
  unfold categorySuffix
  split
  · exact .inr rfl
  · split
    · exact .inr rfl
    · exact .inl rfl

theorem all_categorySuffix (category : Text) :
    (categorySuffix category).all isIdentifierChar = true := by
  rcases categorySuffix_cases category with hnone | hsuffix
  · rw [hnone]
    rfl
  · exact List.all_eq_true.mpr (isIdentifierChar_of_isIdentifier hsuffix)

/-- A suggestion is an identifier or nothing. -/
theorem suggest_cases (module : ModulePath) :
    suggest module = [] ∨ isIdentifier (suggest module) = true := by
  unfold suggest
  dsimp only
  split
  · exact .inl rfl
  · rcases sanitized_cases (raised _) with hnone | hname
    · rw [hnone, List.nil_append]
      exact categorySuffix_cases _
    · exact .inr (isIdentifier_append hname (all_categorySuffix _))

/-- The name that an answer stands for, if it is one. -/
def chosen (answer suggestion : Text) : Text :=
  if answer.all isBlank then suggestion else trim answer

variable {answer suggestion : Text} {module : ModulePath}

theorem settle_eq :
    settle answer suggestion module =
      if chosen answer suggestion = [] then .error (.noName module)
      else if isIdentifier (chosen answer suggestion) then .ok (chosen answer suggestion)
      else .error (.notIdentifier (chosen answer suggestion)) := by
  have htrim : (if (trim answer).isEmpty then suggestion else trim answer) =
      chosen answer suggestion :=
    if_congr (List.isEmpty_iff.trans trim_eq_nil_iff) rfl rfl
  rw [settle, htrim]
  exact if_congr List.isEmpty_iff rfl rfl

theorem chosen_eq_nil_iff :
    chosen answer suggestion = [] ↔ answer.all isBlank = true ∧ suggestion = [] := by
  unfold chosen
  split
  · next hblank => rw [and_iff_right hblank]
  · next hblank => rw [trim_eq_nil_iff, and_iff_left_of_imp fun h => absurd h hblank]

theorem settle_eq_ok_iff {name : Text} :
    settle answer suggestion module = .ok name ↔
      isIdentifier name = true ∧ name = chosen answer suggestion := by
  rw [settle_eq]
  constructor
  · intro h
    split at h
    · contradiction
    · split at h
      · next hname =>
        cases h
        exact ⟨hname, rfl⟩
      · contradiction
  · rintro ⟨hname, rfl⟩
    rw [if_neg (ne_nil_of_isIdentifier hname), if_pos hname]

theorem settle_eq_noName_iff {unnamed : ModulePath} :
    settle answer suggestion module = .error (.noName unnamed) ↔
      unnamed = module ∧ answer.all isBlank = true ∧ suggestion = [] := by
  rw [settle_eq, ← chosen_eq_nil_iff]
  constructor
  · intro h
    split at h
    · next hnone =>
      cases h
      exact ⟨rfl, hnone⟩
    · split at h <;> cases h
  · rintro ⟨rfl, hnone⟩
    exact if_pos hnone

/-- A suggestion that is accepted is not refused. -/
theorem fault_of_settle_suggest {f : Fault} (hblank : answer.all isBlank = true)
    (h : settle answer (suggest module) module = .error f) :
    f = .noName module ∧ suggest module = [] := by
  have hchosen : chosen answer (suggest module) = suggest module := if_pos hblank
  rw [settle_eq, hchosen] at h
  split at h
  · next hnone =>
    cases h
    exact ⟨rfl, hnone⟩
  · next hsome =>
    rw [if_pos ((suggest_cases module).resolve_left hsome)] at h
    contradiction

end ModuleName

/-! Runs that get no answers. -/

/-- Gives at most blank answers. -/
def Respondent.IsSilent : Respondent → Prop
  | prepared answers => ∀ answer, some answer ∈ answers → answer.all isBlank = true
  | terminal => True

/-- Whether blank answers may lead to a refusal. -/
def Fault.FitsSilence : Fault → Prop
  | notIdentifier _ => False
  | noName module => ModuleName.suggest module = []
  | _ => True

def Failure.FitsSilence (e : Failure) : Prop := ∀ f, e.fault? = some f → f.FitsSilence

theorem Failure.fitsSilence_of_fault?_eq_none {e : Failure} (h : e.fault? = none) :
    e.FitsSilence := by
  intro f hf
  rw [h] at hf
  contradiction

theorem Failure.fitsSilence_of_fault? {e : Failure} {f : Fault} (h : e.fault? = some f)
    (hf : f.FitsSilence) : e.FitsSilence := by
  intro f' hf'
  rw [h] at hf'
  cases hf'
  exact hf

theorem Store.fault?_of_save {store store' : Store} {entries : Table Text} {disk disk' : Disk}
    {e : Failure} (h : store.save entries disk = (.error e, store', disk')) : e.fault? = none := by
  unfold save at h
  split at h
  · cases h
  · split at h
    · cases h
    · next hreplace =>
      cases h
      unfold replaceFile at hreplace
      dsimp only at hreplace
      split at hreplace
      · cases hreplace
        rfl
      · split at hreplace
        · cases hreplace
          rfl
        · cases hreplace
  · cases h
  · cases h
    rfl
  · cases h
    rfl

theorem NameMap.fitsSilence_of_assign {m m' : NameMap} {disk disk' : Disk} {path : ModulePath}
    {name : Text} {plain : Table ModulePath} {e : Failure}
    (h : m.assign disk path name plain = (.error e, m', disk')) : e.FitsSilence := by
  unfold assign at h
  split at h
  · split at h
    · cases h
    · cases h
      exact Failure.fitsSilence_of_fault? rfl trivial
  · split at h
    · next f hobstacle =>
      cases h
      refine Failure.fitsSilence_of_fault? rfl ?_
      unfold obstacle? at hobstacle
      split at hobstacle
      · cases hobstacle
        trivial
      · split at hobstacle
        · cases hobstacle
          trivial
        · contradiction
    · dsimp only at h
      split at h
      · next hsave =>
        cases h
        have hcause := Store.fault?_of_save hsave
        exact Failure.fitsSilence_of_fault?_eq_none hcause
      · cases h

namespace Survey

variable {site : Site} {probe : Probe} {owner? : Text → Option ModulePath} {pathsOnly : Bool}

theorem fitsSilence_of_add {a : Survey} {s : Statement} {f : Fault}
    (h : a.add site probe owner? pathsOnly s = .error f) : f.FitsSilence := by
  unfold add at h
  dsimp only at h
  split at h
  · unfold addPlain at h
    dsimp only at h
    split at h
    · cases h
      trivial
    · contradiction
  · contradiction

theorem fitsSilence_of_ofSource {source : Text} {f : Fault}
    (h : ofSource site probe owner? pathsOnly source = .error f) : f.FitsSilence := by
  unfold ofSource at h
  generalize importsOf source = imports at h
  generalize ({} : Survey) = a at h
  induction imports generalizing a with
  | nil => contradiction
  | cons i rest ih =>
    rw [List.foldlM_cons] at h
    cases hadd : a.add site probe owner? pathsOnly i.toStatement with
    | error f' =>
      rw [hadd] at h
      cases h
      exact fitsSilence_of_add hadd
    | ok b =>
      rw [hadd] at h
      exact ih b h

end Survey

namespace Run

/-- What a silent run goes on with: it stays silent, and if it ends here that fits. -/
structure Endures {α : Type} (result : Except Failure α) (r' : Run) : Prop where
  silent : r'.respondent.IsSilent
  fits : ∀ e, result = .error e → e.FitsSilence

namespace Endures

variable {α : Type} {r : Run}

theorem ok {a : α} (h : r.respondent.IsSilent) : Endures (.ok a : Except Failure α) r :=
  ⟨h, nofun⟩

theorem error {e : Failure} (h : r.respondent.IsSilent) (he : e.FitsSilence) :
    Endures (.error e : Except Failure α) r :=
  ⟨h, fun _ heq => Except.error.inj heq ▸ he⟩

/-- A failure is passed on. -/
theorem of_error {β : Type} {e : Failure} (h : Endures (.error e : Except Failure α) r) :
    Endures (.error e : Except Failure β) r :=
  .error h.silent (h.fits e rfl)

end Endures

theorem ask_endures {r : Run} (h : r.respondent.IsSilent) (question : NameQuestion) :
    Endures (r.ask question).1 (r.ask question).2 ∧
      ∀ answer, (r.ask question).1 = .ok answer → answer.all isBlank = true := by
  unfold ask
  dsimp only
  cases hrespondent : r.respondent with
  | terminal =>
    exact ⟨.error trivial (Failure.fitsSilence_of_fault?_eq_none rfl), nofun⟩
  | prepared answers =>
    rw [hrespondent] at h
    cases answers with
    | nil => exact ⟨.ok h, fun _ heq => Except.ok.inj heq ▸ rfl⟩
    | cons given answers =>
      have hlater : (Respondent.prepared answers).IsSilent := fun answer hanswer =>
        h answer (List.mem_cons_of_mem _ hanswer)
      cases given with
      | none => exact ⟨.error hlater (Failure.fitsSilence_of_fault?_eq_none rfl), nofun⟩
      | some answer =>
        exact ⟨.ok hlater, fun _ heq => Except.ok.inj heq ▸ h answer List.mem_cons_self⟩

theorem assign_endures {r r' : Run} {key : ModulePath} {name : Text}
    {result : Except Failure Unit} (h : r.assign key name = (result, r'))
    (hr : r.respondent.IsSilent) : Endures result r' := by
  obtain ⟨_, _, _, hassign, rfl⟩ := assign_eq h
  exact ⟨hr, fun e he => NameMap.fitsSilence_of_assign (he ▸ hassign)⟩

theorem nameFor_endures {r r' : Run} {module : ModulePath} {d : Destructuring}
    {result : Except Failure Text} (h : r.nameFor module d = (result, r'))
    (hr : r.respondent.IsSilent) : Endures result r' := by
  obtain ⟨hask, hblank⟩ := ask_endures hr (questionOf module d)
  cases nameFor_ends h with
  | had => exact .ok hr
  | unanswered _ hasked => exact .error hask.silent (hask.fits _ hasked)
  | unsettled _ hasked hsettled =>
    obtain ⟨rfl, hnone⟩ := ModuleName.fault_of_settle_suggest (hblank _ hasked) hsettled
    exact .error hask.silent (Failure.fitsSilence_of_fault? rfl hnone)
  | refused _ _ _ hassigned => exact (assign_endures hassigned hask.silent).of_error
  | named _ _ _ hassigned => exact .ok (assign_endures hassigned hask.silent).silent

theorem collapseAll_endures {r r' : Run} {path t : Text}
    {destructured : List (ModulePath × Destructuring)}
    {result : Except Failure (List (ModulePath × Text) × Text)}
    (h : r.collapseAll path destructured t = (result, r')) (hr : r.respondent.IsSilent) :
    Endures result r' := by
  induction destructured generalizing r t result with
  | nil =>
    cases h
    exact .ok hr
  | cons e destructured ih =>
    obtain ⟨module, d⟩ := e
    unfold collapseAll at h
    split at h
    · next hnamed =>
      cases h
      exact (nameFor_endures hnamed hr).of_error
    · next hnamed =>
      have hname := nameFor_endures hnamed hr
      split at h
      · next f hcollapse =>
        cases h
        rw [Collapse.collapse_eq] at hcollapse
        split at hcollapse
        · cases hcollapse
          exact .error hname.silent (Failure.fitsSilence_of_fault? rfl trivial)
        · contradiction
      · split at h
        · next hrest =>
          cases h
          exact (ih hrest hname.silent).of_error
        · next hrest =>
          cases h
          exact .ok (ih hrest hname.silent).silent

theorem silent_of_writeText {r r' : Run} {needed : Bool} {file t : Text}
    (h : r.writeText needed file t = .ok r') (hr : r.respondent.IsSilent) :
    r'.respondent.IsSilent := by
  obtain ⟨_, rfl⟩ := exists_disk_of_writeText h
  exact hr

theorem visitFile_endures {r r' : Run} {root file : Text} {result : Except Failure Visit}
    (h : r.visitFile root file = (result, r')) (hr : r.respondent.IsSilent) :
    Endures result r' := by
  cases visitFile_ends h with
  | unread hsource =>
    obtain ⟨_, rfl⟩ := readText_eq_error hsource
    exact .error hr (Failure.fitsSilence_of_fault?_eq_none rfl)
  | unsurveyed _ hsurvey =>
    exact .error hr (Failure.fitsSilence_of_fault? rfl (Survey.fitsSilence_of_ofSource hsurvey))
  | unpatched _ _ hpatched =>
    obtain ⟨_, rfl⟩ := writeText_eq_error hpatched
    exact .error hr (Failure.fitsSilence_of_fault?_eq_none rfl)
  | uncollapsed _ _ hpatched hcollapsed =>
    have hsilent := silent_of_writeText hpatched hr
    exact (collapseAll_endures hcollapsed hsilent).of_error
  | unwritten _ _ hpatched hcollapsed hwritten =>
    have hsilent := silent_of_writeText hpatched hr
    have hlast := collapseAll_endures hcollapsed hsilent
    obtain ⟨_, rfl⟩ := writeText_eq_error hwritten
    exact .error hlast.silent (Failure.fitsSilence_of_fault?_eq_none rfl)
  | done _ _ hpatched hcollapsed hwritten =>
    have hsilent := silent_of_writeText hpatched hr
    have hlast := collapseAll_endures hcollapsed hsilent
    have hwritten := silent_of_writeText hwritten hlast.silent
    exact .ok hwritten

theorem visitFiles_endures {r r' : Run} {root : Text} {files : List Text}
    {result : Except Failure Unit} (h : r.visitFiles root files = (result, r'))
    (hr : r.respondent.IsSilent) : Endures result r' := by
  induction files generalizing r with
  | nil =>
    cases h
    exact .ok hr
  | cons file files ih =>
    rw [visitFiles] at h
    split at h
    · next hvisit =>
      cases h
      exact (visitFile_endures hvisit hr).of_error
    · next hvisit => exact ih h (visitFile_endures hvisit hr).silent

theorem visitRoot_endures {r r' : Run} {root : Text} {result : Except Failure Unit}
    (h : r.visitRoot root = (result, r')) (hr : r.respondent.IsSilent) : Endures result r' := by
  unfold visitRoot at h
  split at h
  · cases h
    exact .error hr (Failure.fitsSilence_of_fault?_eq_none rfl)
  · split at h
    · next hwalk =>
      cases h
      obtain ⟨path, reason, rfl⟩ := Disk.sourcesUnder_error hwalk
      exact .error hr (Failure.fitsSilence_of_fault?_eq_none rfl)
    · exact visitFiles_endures h hr

/-- A run without answers is never refused for a name that is no identifier. -/
theorem visitRoots_endures {r r' : Run} {roots : List Text} {result : Except Failure Totals}
    (h : r.visitRoots roots = (result, r')) (hr : r.respondent.IsSilent) : Endures result r' := by
  induction roots generalizing r with
  | nil =>
    cases h
    exact .ok hr
  | cons root roots ih =>
    rw [visitRoots] at h
    split at h
    · next hroot =>
      cases h
      exact (visitRoot_endures hroot hr).of_error
    · next hroot => exact ih h (visitRoot_endures hroot hr).silent

/-- A module's path suggests an identifier or nothing. Whatever the answer, only an identifier is
taken: what is written in the answer, or what is suggested if nothing is. There is no name exactly
if nothing is written and nothing suggested, and a name is refused only if it is written. So where
all answers are blank a run is never refused for a name that is no identifier, and for want of a
name only if nothing is suggested. -/
theorem suggestion_settles :
    (∀ (module : ModulePath) (answer : Text),
      let suggestion := ModuleName.suggest module
      let settled := ModuleName.settle answer suggestion module
      (suggestion = [] ∨ isIdentifier suggestion = true) ∧
      (∀ name, settled = .ok name ↔ isIdentifier name = true ∧
        name = if answer.all isBlank then suggestion else trim answer) ∧
      (∀ unnamed, settled = .error (.noName unnamed) ↔
        unnamed = module ∧ answer.all isBlank = true ∧ suggestion = []) ∧
      (answer.all isBlank = true → ∀ name, settled ≠ .error (.notIdentifier name))) ∧
    ∀ (r r' : Run) (roots : List Text) (e : Failure), r.respondent.IsSilent →
      r.visitRoots roots = (.error e, r') →
      (∀ name, e.fault? ≠ some (.notIdentifier name)) ∧
      ∀ module, e.fault? = some (.noName module) → ModuleName.suggest module = [] := by
  refine ⟨fun module answer => ⟨ModuleName.suggest_cases module, fun name =>
    ModuleName.settle_eq_ok_iff, fun unnamed => ModuleName.settle_eq_noName_iff, ?_⟩,
    fun r r' roots e hr h => ?_⟩
  · intro hblank name hrefused
    cases (ModuleName.fault_of_settle_suggest hblank hrefused).1
  · have hfits := (visitRoots_endures h hr).fits e rfl
    exact ⟨fun name hname => hfits _ hname, fun module hmodule => hfits _ hmodule⟩

/-- Nothing of this module's name is left for a suggestion, so a run without answers stops. Of a
module beside it something is, and a blank answer takes it. -/
theorem suggestion_settles_unnamed :
    let r : Run :=
      { disk := ⟨[("a.js".toList, .file (.text "let { x } = require('./ü.js');".toList))], []⟩
        names := ⟨.empty, .empty, .memory .empty 0⟩
        respondent := .accepting
        options := {} }
    let module : ModulePath := ⟨"./ü.js".toList⟩
    let beside : ModulePath := ⟨"./m.js".toList⟩
    ∃ e r', r.respondent.IsSilent ∧ r.visitRoots [['.']] = (.error e, r') ∧
      (∀ name, e.fault? ≠ some (.notIdentifier name)) ∧ e.fault? = some (.noName module) ∧
      ModuleName.suggest module = [] ∧
      ModuleName.settle [' '] (ModuleName.suggest module) module = .error (.noName module) ∧
      ModuleName.settle [' '] (ModuleName.suggest beside) beside = .ok ['M'] := by
  intro r module beside
  have hsilent : r.respondent.IsSilent := nofun
  have hfails : (r.visitRoots [['.']]).1.map (fun _ => ()) =
      .error (.fault (.noName module)) := by decide +kernel
  rcases hrun : r.visitRoots [['.']] with ⟨e | _, r'⟩
  · rw [hrun] at hfails
    obtain ⟨hsettles, hstops⟩ := suggestion_settles
    cases Except.error.inj hfails
    obtain ⟨hrefused, hunnamed⟩ := hstops r r' [['.']] _ hsilent hrun
    have hnone := hunnamed module rfl
    exact ⟨_, r', hsilent, rfl, hrefused, rfl, hnone,
      ((hsettles module [' ']).2.2.1 module).mpr ⟨rfl, rfl, hnone⟩,
      ((hsettles beside [' ']).2.1 ['M']).mpr (by decide +kernel)⟩
  · rw [hrun] at hfails
    contradiction

end Run
end Namespacer
