import Mathlib.Data.List.Flatten
import Namespacer.Proofs.Run.Attempt
import Namespacer.Proofs.Run.Unattended

/-! Which symbols are counted as qualified, over any sequence of visits. An import is counted once
it is collapsed, which is before its file is written. So a visit that fails later counts the imports
that it collapsed, though its file does not show them. -/
namespace Namespacer

open Text

theorem Survey.symbols_ne_nil_of_mem {site : Site} {probe : Probe}
    {owner? : Text → Option ModulePath} {pathsOnly : Bool} {source : Text} {survey : Survey}
    (h : ofSource site probe owner? pathsOnly source = .ok survey)
    {e : ModulePath × Destructuring} (he : e ∈ survey.destructured) : e.2.symbols ≠ [] := by
  obtain ⟨s, -, hfiling⟩ := exists_filing?_of_mem h he
  exact Statement.symbols_ne_nil_of_filing? hfiling

namespace Run

/-- What a later state of a run counts as qualified in addition to an earlier one. -/
structure Credits (r : Run) (symbols : List Text) (r' : Run) : Prop where
  eliminated : ∀ symbol, r'.eliminated.contains symbol = true ↔
    r.eliminated.contains symbol = true ∨ symbol ∈ symbols
  counted : r'.totals.symbolsQualified = r.totals.symbolsQualified + symbols.length

namespace Credits

variable {r r' r'' : Run} {symbols symbols' : List Text}

theorem of_eq (heliminated : r'.eliminated = r.eliminated)
    (hcounted : r'.totals.symbolsQualified = r.totals.symbolsQualified) : r.Credits [] r' where
  eliminated symbol := by simp [heliminated]
  counted := hcounted

theorem trans (h : r.Credits symbols r') (h' : r'.Credits symbols' r'') :
    r.Credits (symbols ++ symbols') r'' where
  eliminated symbol := by rw [h'.eliminated, h.eliminated, or_assoc, List.mem_append]
  counted := by rw [h'.counted, h.counted, List.length_append, Nat.add_assoc]

theorem trans_nil (h : r.Credits symbols r') (h' : r'.Credits [] r'') : r.Credits symbols r'' := by
  simpa using h.trans h'

end Credits

theorem credit_credits (r : Run) (module : ModulePath) (d : Destructuring) (name : Text) :
    r.Credits d.symbols (r.credit module d name) where
  eliminated := Table.contains_foldl_insert r.eliminated d.symbols
  counted := rfl

theorem assign_credits {r r' : Run} {key : ModulePath} {name : Text}
    {result : Except Failure Unit} (h : r.assign key name = (result, r')) : r.Credits [] r' := by
  obtain ⟨_, _, _, -, rfl⟩ := assign_eq h
  exact .of_eq rfl rfl

theorem nameFor_credits {r r' : Run} {module : ModulePath} {d : Destructuring}
    {result : Except Failure Text} (h : r.nameFor module d = (result, r')) : r.Credits [] r' := by
  rcases nameFor_state h with rfl | ⟨-, question, rfl | ⟨name, given, -, hassign⟩⟩
  · exact .of_eq rfl rfl
  · exact .of_eq rfl rfl
  · have hasked : r.Credits [] (r.ask question).2 := .of_eq rfl rfl
    exact hasked.trans (assign_credits hassign)

theorem writeText_credits {r r' : Run} {needed : Bool} {file t : Text}
    (h : r.writeText needed file t = .ok r') : r.Credits [] r' := by
  obtain ⟨_, rfl⟩ := exists_disk_of_writeText h
  exact .of_eq rfl rfl

/-- The imports that are collapsed before all are or one of them fails. -/
def collapsedIn (r : Run) (path : Text) :
    List (ModulePath × Destructuring) → Text → List Destructuring
  | [], _ => []
  | (module, d) :: rest, t =>
    match r.nameFor module d with
    | (.error _, _) => []
    | (.ok name, r) =>
      match d.collapse path name t with
      | .error _ => []
      | .ok t => d :: (r.credit module d name).collapsedIn path rest t

/-- An import is counted if and only if it is collapsed. -/
theorem collapseAll_credits {r r' : Run} {path t : Text}
    {destructured : List (ModulePath × Destructuring)}
    {result : Except Failure (List (ModulePath × Text) × Text)}
    (h : r.collapseAll path destructured t = (result, r')) :
    r.Credits ((r.collapsedIn path destructured t).flatMap Destructuring.symbols) r' := by
  induction destructured generalizing r t result with
  | nil =>
    cases h
    exact .of_eq rfl rfl
  | cons e destructured ih =>
    obtain ⟨module, d⟩ := e
    rw [collapseAll] at h
    rw [collapsedIn]
    rcases hnamed : r.nameFor module d with ⟨e | name, named⟩
    · rw [hnamed] at h
      cases h
      exact nameFor_credits hnamed
    · rw [hnamed] at h
      dsimp only at h ⊢
      cases hcollapse : d.collapse path name t with
      | error f =>
        rw [hcollapse] at h
        cases h
        exact nameFor_credits hnamed
      | ok t' =>
        rw [hcollapse] at h
        dsimp only at h
        have hfirst := (nameFor_credits hnamed).trans (credit_credits named module d name)
        rcases hrest : (named.credit module d name).collapseAll path destructured t' with
          ⟨e | done, last⟩
        · rw [hrest] at h
          cases h
          exact hfirst.trans (ih hrest)
        · rw [hrest] at h
          cases h
          exact hfirst.trans (ih hrest)

theorem prefix_collapsedIn (r : Run) (path t : Text)
    (destructured : List (ModulePath × Destructuring)) :
    r.collapsedIn path destructured t <+: destructured.map Prod.snd := by
  induction destructured generalizing r t with
  | nil => exact List.nil_prefix
  | cons e destructured ih =>
    obtain ⟨module, d⟩ := e
    unfold collapsedIn
    split
    · exact List.nil_prefix
    · split
      · exact List.nil_prefix
      · exact (List.prefix_cons_inj d).mpr (ih _ _)

theorem collapsedIn_of_ok {r r' : Run} {path t t' : Text}
    {destructured : List (ModulePath × Destructuring)} {renamed : List (ModulePath × Text)}
    (h : r.collapseAll path destructured t = (.ok (renamed, t'), r')) :
    r.collapsedIn path destructured t = destructured.map Prod.snd := by
  induction destructured generalizing r t renamed with
  | nil => rfl
  | cons e destructured ih =>
    obtain ⟨module, d⟩ := e
    obtain ⟨name, named, renamed', hnamed, hword, hrest, -⟩ := collapseAll_cons h
    rw [collapsedIn, hnamed]
    dsimp only
    rw [Collapse.collapse_eq, hword]
    exact congrArg (d :: ·) (ih hrest)

namespace Attempt

/-- The imports that are collapsed in a visit, in its file's text if not on disk. -/
def collapsed (a : Attempt) : List Destructuring :=
  let path := PathText.relativeTo a.root a.file
  match a.before.readText a.file with
  | .error _ => []
  | .ok source =>
    match a.before.survey a.root a.file source with
    | .error _ => []
    | .ok survey =>
      let r := a.before.surveyed path source survey
      match r.writeText (survey.patched source ≠ source) a.file (survey.patched source) with
      | .error _ => []
      | .ok r =>
        (r.remember survey.plain).collapsedIn path survey.destructured (survey.patched source)

theorem collapsed_of_patched {a : Attempt} {source : Text} {survey : Survey} {patched : Run}
    (hsource : a.before.readText a.file = .ok source)
    (hsurvey : a.before.survey a.root a.file source = .ok survey)
    (hpatched : (a.before.surveyed (PathText.relativeTo a.root a.file) source survey).writeText
      (survey.patched source ≠ source) a.file (survey.patched source) = .ok patched) :
    a.collapsed = (patched.remember survey.plain).collapsedIn (PathText.relativeTo a.root a.file)
      survey.destructured (survey.patched source) := by
  simp only [collapsed, hsource, hsurvey, hpatched]

theorem credits {a : Attempt} {result : Except Failure Visit} {r' : Run}
    (h : a.before.visitFile a.root a.file = (result, r')) :
    a.before.Credits (a.collapsed.flatMap Destructuring.symbols) r' := by
  have hpatch {source : Text} {survey : Survey} {patched : Run}
      (hpatched : (a.before.surveyed (PathText.relativeTo a.root a.file) source survey).writeText
        (survey.patched source ≠ source) a.file (survey.patched source) = .ok patched) :
      a.before.Credits [] (patched.remember survey.plain) := by
    have hsurveyed : a.before.Credits []
        (a.before.surveyed (PathText.relativeTo a.root a.file) source survey) := .of_eq rfl rfl
    exact (hsurveyed.trans (writeText_credits hpatched)).trans (.of_eq rfl rfl)
  cases visitFile_ends h with
  | unread hsource =>
    simp only [collapsed, hsource]
    exact .of_eq rfl rfl
  | unsurveyed hsource hsurvey =>
    simp only [collapsed, hsource, hsurvey]
    exact .of_eq rfl rfl
  | unpatched hsource hsurvey hpatched =>
    simp only [collapsed, hsource, hsurvey, hpatched]
    exact .of_eq rfl rfl
  | uncollapsed hsource hsurvey hpatched hcollapsed =>
    rw [collapsed_of_patched hsource hsurvey hpatched]
    exact (hpatch hpatched).trans (collapseAll_credits hcollapsed)
  | unwritten hsource hsurvey hpatched hcollapsed =>
    rw [collapsed_of_patched hsource hsurvey hpatched]
    exact (hpatch hpatched).trans (collapseAll_credits hcollapsed)
  | done hsource hsurvey hpatched hcollapsed hwritten =>
    rw [collapsed_of_patched hsource hsurvey hpatched]
    have hlast := (hpatch hpatched).trans (collapseAll_credits hcollapsed)
    exact (hlast.trans_nil (writeText_credits hwritten)).trans_nil (.of_eq rfl rfl)

/-- A visit that succeeds collapses all imports that are filed. -/
theorem collapsed_of_succeeds {a : Attempt} (h : a.Succeeds) :
    ∃ source survey, a.before.readText a.file = .ok source ∧
      a.before.survey a.root a.file source = .ok survey ∧
      a.collapsed = survey.destructured.map Prod.snd := by
  obtain ⟨visit, hvisit⟩ := h
  have hends := visitFile_ends a.visitFile_eq
  rw [hvisit] at hends
  generalize a.after = r' at hends
  cases hends with
  | done hsource hsurvey hpatched hcollapsed =>
    refine ⟨_, _, hsource, hsurvey, ?_⟩
    rw [collapsed_of_patched hsource hsurvey hpatched, collapsedIn_of_ok hcollapsed]

theorem symbols_ne_nil_of_mem_collapsed {a : Attempt} {d : Destructuring} (hd : d ∈ a.collapsed) :
    d.symbols ≠ [] := by
  unfold collapsed at hd
  dsimp only at hd
  split at hd
  · contradiction
  · split at hd
    · contradiction
    · next survey hsurvey =>
      split at hd
      · contradiction
      · obtain ⟨e, he, rfl⟩ := List.mem_map.mp ((prefix_collapsedIn _ _ _ _).subset hd)
        exact Survey.symbols_ne_nil_of_mem hsurvey he

instance (a : Attempt) : Decidable a.Succeeds :=
  decidable_of_iff (a.result.toOption.isSome = true) <| by
    unfold Succeeds
    cases a.result <;> simp [Except.toOption]

end Attempt

/-- The symbols of the imports that some visits collapse. -/
def symbolsOf (attempts : List Attempt) : List Text :=
  attempts.flatMap fun a => a.collapsed.flatMap Destructuring.symbols

/-- Two states of a run between which nothing is counted. -/
def Uncounted (r r' : Run) : Prop := r'.eliminated = r.eliminated ∧ r'.totals = r.totals

theorem Uncounted.credits {r r' : Run} (h : Uncounted r r') : r.Credits [] r' :=
  .of_eq h.1 (by rw [h.2])

theorem Attempts.credits {r r' : Run} {attempts : List Attempt}
    (h : Attempts Uncounted r attempts r') : r.Credits (symbolsOf attempts) r' := by
  induction h with
  | nil h => exact h.credits
  | @cons _ _ a _ h _ ih => exact (h.credits.trans (Attempt.credits a.visitFile_eq)).trans ih

theorem symbolsOf_filter_sublist (attempts : List Attempt) :
    (symbolsOf (attempts.filter (·.Succeeds))).Sublist (symbolsOf attempts) :=
  List.filter_sublist.flatMap _

theorem Attempt.flatMap_symbols_eq_nil {a : Attempt} :
    a.collapsed.flatMap Destructuring.symbols = [] ↔ a.collapsed = [] := by
  constructor
  · intro h
    by_contra hne
    obtain ⟨d, hd⟩ := List.exists_mem_of_ne_nil _ hne
    exact symbols_ne_nil_of_mem_collapsed hd (List.flatMap_eq_nil_iff.mp h d hd)
  · intro h
    rw [h, List.flatMap_nil]

/-- What visits that fail collapse is all that is missing if they are left out. -/
theorem symbolsOf_filter_eq_iff (attempts : List Attempt) :
    symbolsOf (attempts.filter (·.Succeeds)) = symbolsOf attempts ↔
      ∀ a ∈ attempts, ¬ a.Succeeds → a.collapsed = [] := by
  induction attempts with
  | nil => simp [symbolsOf]
  | cons a attempts ih =>
    have hcons (attempts : List Attempt) : symbolsOf (a :: attempts) =
        a.collapsed.flatMap Destructuring.symbols ++ symbolsOf attempts := List.flatMap_cons
    refine Iff.trans ?_ ((and_congr_right' ih).trans List.forall_mem_cons.symm)
    by_cases ha : a.Succeeds
    · rw [List.filter_cons_of_pos (by simpa using ha), hcons, hcons, List.append_cancel_left_eq]
      simp [ha]
    · rw [List.filter_cons_of_neg (by simpa using ha), hcons]
      constructor
      · intro h
        have hlength := congrArg List.length h
        have hle := (symbolsOf_filter_sublist attempts).length_le
        rw [List.length_append] at hlength
        have hnil : a.collapsed.flatMap Destructuring.symbols = [] :=
          List.eq_nil_of_length_eq_zero (by omega)
        rw [hnil, List.nil_append] at h
        exact ⟨fun _ => Attempt.flatMap_symbols_eq_nil.mp hnil, h⟩
      · rintro ⟨hnil, h⟩
        rw [hnil ha, List.flatMap_nil, List.nil_append, h]

/-- If nothing has been counted before some visits, a symbol is counted exactly if one of them
collapses an import of it, and as many are counted as these imports have. A visit that succeeds has
collapsed all imports that are filed. So what is counted is what visits that succeed have collapsed
if and only if those that fail have collapsed nothing. -/
theorem credits_iff {r r' : Run} {attempts : List Attempt} (h : Attempts Uncounted r attempts r')
    (heliminated : r.eliminated = .empty) (hcounted : r.totals.symbolsQualified = 0) :
    (∀ symbol, r'.eliminated.contains symbol = true ↔ symbol ∈ symbolsOf attempts) ∧
      r'.totals.symbolsQualified = (symbolsOf attempts).length ∧
      (∀ a ∈ attempts, a.Succeeds → ∃ source survey, a.before.readText a.file = .ok source ∧
        a.before.survey a.root a.file source = .ok survey ∧
        a.collapsed = survey.destructured.map Prod.snd) ∧
      ((∀ symbol, r'.eliminated.contains symbol = true →
          symbol ∈ symbolsOf (attempts.filter (·.Succeeds))) ∧
        r'.totals.symbolsQualified = (symbolsOf (attempts.filter (·.Succeeds))).length ↔
          ∀ a ∈ attempts, ¬ a.Succeeds → a.collapsed = []) := by
  have hcredits := h.credits
  have hmem (symbol : Text) :
      r'.eliminated.contains symbol = true ↔ symbol ∈ symbolsOf attempts := by
    rw [hcredits.eliminated, heliminated]
    simp [Table.contains]
  have hcount : r'.totals.symbolsQualified = (symbolsOf attempts).length := by
    rw [hcredits.counted, hcounted, Nat.zero_add]
  refine ⟨hmem, hcount, fun a _ => Attempt.collapsed_of_succeeds, ?_⟩
  rw [← symbolsOf_filter_eq_iff]
  constructor
  · rintro ⟨-, hsame⟩
    rw [hcount] at hsame
    exact (symbolsOf_filter_sublist attempts).eq_of_length hsame.symm
  · intro hsame
    rw [hsame]
    exact ⟨fun symbol => (hmem symbol).mp, hcount⟩

/-- The second of two imports cannot be collapsed, since the name for it is taken. The symbol of the
first one is counted, and the file still has it bare. -/
theorem credits_iff_name_taken :
    let a : Attempt := ⟨SuccessfulVisit.overFile
      "let { x } = require('./m.js');\nlet { y } = require('./n.js');\nlet N = 1;\n", ['.'],
      "a.js".toList⟩
    ¬ a.Succeeds ∧ a.after.readText a.file = a.before.readText a.file ∧
      a.after.eliminated.contains ['x'] = true ∧ a.after.totals.symbolsQualified = 1 ∧
      ¬ ((∀ symbol, a.after.eliminated.contains symbol = true →
          symbol ∈ symbolsOf ([a].filter (·.Succeeds))) ∧
        a.after.totals.symbolsQualified = (symbolsOf ([a].filter (·.Succeeds))).length) := by
  intro a
  have hfails : ¬ a.Succeeds := by decide +kernel
  have hcollapsed : a.collapsed = [⟨"'./m.js'".toList, "{ x }".toList, [['x']]⟩] := by
    decide +kernel
  have hsymbols : symbolsOf [a] = [['x']] := by
    rw [symbolsOf, List.flatMap_singleton, hcollapsed]
    rfl
  have hrun : Attempts Uncounted a.before [a] a.after := .cons ⟨rfl, rfl⟩ (.nil ⟨rfl, rfl⟩)
  obtain ⟨hmem, hcount, -, hiff⟩ := credits_iff hrun rfl rfl
  rw [hsymbols] at hmem hcount
  refine ⟨hfails, by decide +kernel, (hmem _).mpr List.mem_cons_self, hcount, ?_⟩
  rw [hiff]
  intro hnone
  rw [hnone a List.mem_cons_self hfails] at hcollapsed
  contradiction

end Run
end Namespacer
