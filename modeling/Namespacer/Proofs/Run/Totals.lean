import Mathlib.Algebra.GroupWithZero.Nat
import Namespacer.Proofs.Run.Eliminated
import Namespacer.Proofs.Sorting
import Namespacer.Proofs.Text.ByteOrder

/-! What a run has counted when it ends. The totals add up what the visits report, each at the
point where it is known, and the symbols that were qualified are listed by their length and then by
their bytes. -/
namespace Namespacer

open Text

theorem Table.mem_keys_iff {α : Type} {t : Table α} {key : Text} :
    key ∈ t.keys ↔ t.contains key = true := by
  unfold keys contains
  rw [List.mem_map, Option.isSome_iff_exists]
  constructor
  · rintro ⟨⟨_, value⟩, hmem, rfl⟩
    exact ⟨value, mem_entries_iff.mp hmem⟩
  · rintro ⟨value, hfind⟩
    exact ⟨_, mem_entries_iff.mpr hfind, rfl⟩

theorem Table.pairwise_keys {α : Type} (t : Table α) : t.keys.Pairwise (· < ·) :=
  List.pairwise_map.mpr t.sorted

namespace Run

/-! The symbols, sorted. -/

theorem mem_eliminatedByLength_iff {r : Run} {symbol : Text} :
    symbol ∈ r.eliminatedByLength ↔ r.eliminated.contains symbol = true := by
  rw [eliminatedByLength, (List.mergeSort_perm _ _).mem_iff, Table.mem_keys_iff]

theorem pairwise_eliminatedByLength (r : Run) :
    r.eliminatedByLength.Pairwise fun a b =>
      Text.size a < Text.size b ∨ Text.size a = Text.size b ∧ bytes a < bytes b := by
  have hsorted : r.eliminatedByLength.Pairwise fun a b =>
      Text.size a ≤ Text.size b ∧ (Text.size a = Text.size b → a < b) :=
    pairwise_mergeSort_of_pairwise r.eliminated.pairwise_keys
  refine hsorted.imp fun {a b} ⟨hle, hlt⟩ => ?_
  rcases Nat.lt_or_eq_of_le hle with hshorter | hsize
  · exact .inl hshorter
  · exact .inr ⟨hsize, bytes_lt_bytes (hlt hsize)⟩

/-! The totals. -/

/-- What a later state of a run has counted in addition to an earlier one, as some visits report. -/
structure Tallies (r : Run) (visits : List Visit) (r' : Run) : Prop where
  scanned : r'.totals.filesScanned = r.totals.filesScanned + visits.length
  changed : r'.totals.filesChanged = r.totals.filesChanged + visits.countP Visit.changed
  patched : r'.totals.patchesApplied =
    r.totals.patchesApplied + (visits.map fun v => v.fixes.length).sum
  warned : r'.totals.warnings = r.totals.warnings + (visits.map fun v => v.warnings.size).sum

namespace Tallies

variable {r r' r'' : Run} {visits visits' : List Visit}

theorem of_eq (htotals : r'.totals = r.totals) : r.Tallies [] r' := by
  constructor <;> simp [htotals]

theorem trans (h : r.Tallies visits r') (h' : r'.Tallies visits' r'') :
    r.Tallies (visits ++ visits') r'' where
  scanned := by rw [h'.scanned, h.scanned, List.length_append, Nat.add_assoc]
  changed := by rw [h'.changed, h.changed, List.countP_append, Nat.add_assoc]
  patched := by rw [h'.patched, h.patched, List.map_append, List.sum_append, Nat.add_assoc]
  warned := by rw [h'.warned, h.warned, List.map_append, List.sum_append, Nat.add_assoc]

end Tallies

theorem nameFor_tallies {r r' : Run} {module : ModulePath} {d : Destructuring}
    {result : Except Failure Text} (h : r.nameFor module d = (result, r')) : r.Tallies [] r' := by
  rcases nameFor_state h with rfl | ⟨-, question, rfl | ⟨name, given, -, hassign⟩⟩
  · exact .of_eq rfl
  · exact .of_eq rfl
  · obtain ⟨_, _, _, -, rfl⟩ := assign_eq hassign
    exact ⟨rfl, rfl, rfl, rfl⟩

theorem collapseAll_tallies {r r' : Run} {path t : Text}
    {destructured : List (ModulePath × Destructuring)}
    {result : Except Failure (List (ModulePath × Text) × Text)}
    (h : r.collapseAll path destructured t = (result, r')) : r.Tallies [] r' :=
  collapseAll_steps (fun r r' => r.Tallies [] r') (fun _ => .of_eq rfl) (fun h h' => h.trans h')
    (fun _ _ _ _ => ⟨rfl, rfl, rfl, rfl⟩) (fun _ _ _ _ _ hnamed => nameFor_tallies hnamed) h

theorem writeText_tallies {r r' : Run} {needed : Bool} {file t : Text}
    (h : r.writeText needed file t = .ok r') : r.Tallies [] r' := by
  obtain ⟨_, rfl⟩ := exists_disk_of_writeText h
  exact .of_eq rfl

/-- A visit that succeeds counts what it reports. -/
theorem visitFile_tallies {r r' : Run} {root file : Text} {visit : Visit}
    (h : r.visitFile root file = (.ok visit, r')) : r.Tallies [visit] r' := by
  cases visitFile_ends h with
  | @done source t survey renamed patched last written hsource hsurvey hpatched hcollapsed
      hwritten =>
    have hremember : patched.Tallies [] (patched.remember survey.plain) := .of_eq rfl
    have hpatch := (writeText_tallies hpatched).trans hremember
    have hcollapse := hpatch.trans (collapseAll_tallies hcollapsed)
    have hlater := hcollapse.trans (writeText_tallies hwritten)
    refine ⟨hlater.scanned, ?_, hlater.patched, hlater.warned⟩
    have hchanged : written.totals.filesChanged = r.totals.filesChanged := hlater.changed
    rw [finish, hchanged]
    by_cases hsame : t = source <;> simp [hsame]

/-- What a visit that succeeds reports: whether the text that it leaves is another one than it read,
and what was found in the text that it read. It has collapsed every import that is filed. -/
theorem Attempt.report {a : Attempt} {visit : Visit} (h : a.result = .ok visit) :
    ∃ source survey t, a.before.readText a.file = .ok source ∧
      a.before.survey a.root a.file source = .ok survey ∧ a.after.readText a.file = .ok t ∧
      visit.changed = decide (t ≠ source) ∧ visit.warnings = survey.warnings ∧
      visit.fixes = survey.fixes ∧ a.collapsed = survey.destructured.map Prod.snd := by
  have hends := visitFile_ends a.visitFile_eq
  rw [h] at hends
  generalize hafter : a.after = r' at hends ⊢
  cases hends with
  | @done source t survey renamed patched last written hsource hsurvey hpatched hcollapsed
      hwritten =>
    refine ⟨source, survey, t, hsource, hsurvey, ?_, rfl, rfl, rfl, ?_⟩
    · have hread := readText_written hsource hpatched hcollapsed hwritten
      exact hread
    · rw [collapsed_of_patched hsource hsurvey hpatched, collapsedIn_of_ok hcollapsed]

theorem Attempts.tallies {r r' : Run} {attempts : List Attempt}
    (h : Attempts Uncounted r attempts r') {visits : List Visit}
    (hvisits : attempts.map Attempt.result = visits.map .ok) : r.Tallies visits r' := by
  induction h generalizing visits with
  | nil h =>
    obtain rfl : visits = [] := by simpa using hvisits.symm
    exact .of_eq h.2
  | @cons _ _ a _ h _ ih =>
    obtain ⟨visit, visits, rfl, hvisit, hrest⟩ := List.map_eq_cons_iff.mp hvisits.symm
    have hsucceeds : a.before.visitFile a.root a.file = (.ok visit, a.after) := by
      rw [a.visitFile_eq, hvisit]
    have hfirst := (Tallies.of_eq h.2).trans (visitFile_tallies hsucceeds)
    exact hfirst.trans (ih hrest.symm)

theorem Prints.uncounted {r r' : Run} (h : Prints r r') : Uncounted r r' := by
  obtain ⟨_, rfl⟩ := h
  exact ⟨rfl, rfl⟩

theorem exists_visits {attempts : List Attempt} (h : ∀ a ∈ attempts, a.Succeeds) :
    ∃ visits : List Visit, attempts.map Attempt.result = visits.map .ok := by
  induction attempts with
  | nil => exact ⟨[], rfl⟩
  | cons a attempts ih =>
    obtain ⟨⟨visit, hvisit⟩, hrest⟩ := List.forall_mem_cons.mp h
    obtain ⟨visits, hvisits⟩ := ih hrest
    exact ⟨visit :: visits, by rw [List.map_cons, List.map_cons, hvisit, hvisits]⟩

theorem totals_of_visitRoots {r last : Run} {roots : List Text} {totals : Totals}
    (h : r.visitRoots roots = (.ok totals, last)) : totals = last.totals := by
  induction roots generalizing r with
  | nil =>
    cases h
    rfl
  | cons root roots ih =>
    rw [visitRoots] at h
    split at h
    · cases h
    · exact ih h

/-- The totals of a run that succeeds. It visits files one after another, and all visits succeed.
The run counts these visits, those of them that leave another text than they read, and the fixes and
the warnings that they report; it counts the symbols of all imports that they collapse, which are
all that are filed. The symbols that were qualified are those that had been before and these; they
are listed each once, by length and then in the order of their bytes. -/
theorem visitRoots_totals {r last : Run} {roots : List Text} {totals : Totals}
    (h : r.visitRoots roots = (.ok totals, last)) :
    ∃ visits : List Visit, (r.attempts roots).map Attempt.result = visits.map .ok ∧
      (∀ a ∈ r.attempts roots, ∀ visit, a.result = .ok visit →
        ∃ source survey t, a.before.readText a.file = .ok source ∧
          a.before.survey a.root a.file source = .ok survey ∧ a.after.readText a.file = .ok t ∧
          visit.changed = decide (t ≠ source) ∧ visit.warnings = survey.warnings ∧
          visit.fixes = survey.fixes ∧ a.collapsed = survey.destructured.map Prod.snd) ∧
      totals = last.totals ∧
      totals.filesScanned = r.totals.filesScanned + visits.length ∧
      totals.filesChanged = r.totals.filesChanged + visits.countP Visit.changed ∧
      totals.patchesApplied =
        r.totals.patchesApplied + (visits.map fun v => v.fixes.length).sum ∧
      totals.warnings = r.totals.warnings + (visits.map fun v => v.warnings.size).sum ∧
      totals.symbolsQualified =
        r.totals.symbolsQualified + (symbolsOf (r.attempts roots)).length ∧
      last.eliminatedByLength.Pairwise (fun a b =>
        Text.size a < Text.size b ∨ Text.size a = Text.size b ∧ bytes a < bytes b) ∧
      ∀ symbol, symbol ∈ last.eliminatedByLength ↔
        symbol ∈ r.eliminatedByLength ∨ symbol ∈ symbolsOf (r.attempts roots) := by
  have hrun : Attempts Uncounted r (r.attempts roots) last :=
    (attempts_prints h).mono Prints.uncounted
  obtain ⟨visits, hvisits⟩ := exists_visits (attempts_ok h)
  obtain rfl := totals_of_visitRoots h
  have htallies := hrun.tallies hvisits
  refine ⟨visits, hvisits, fun a _ visit hvisit => Attempt.report hvisit, rfl, htallies.scanned,
    htallies.changed, htallies.patched, htallies.warned, hrun.credits.counted,
    last.pairwise_eliminatedByLength, fun symbol => ?_⟩
  rw [mem_eliminatedByLength_iff, mem_eliminatedByLength_iff]
  exact hrun.credits.eliminated symbol

/-- Two of four files change, one of them also for a specifier. -/
theorem visitRoots_totals_four_files :
    let r : Run :=
      { disk := ⟨[("a.js".toList,
            .file (.text "let { render, Go, ok } = require('./m.js');\n".toList)),
          ("b.js".toList, .file (.text "let { xy, longName } = require('./n');\n".toList)),
          ("m.js".toList, .file (.text [])), ("n.js".toList, .file (.text []))], []⟩
        names := ⟨.empty, .empty, .memory .empty 0⟩
        respondent := .accepting
        options := {} }
    let symbols := ["render".toList, "Go".toList, "ok".toList, "xy".toList, "longName".toList]
    ∃ totals last, ∃ visits : List Visit, r.visitRoots [['.']] = (.ok totals, last) ∧
      (r.attempts [['.']]).map Attempt.result = visits.map .ok ∧
      visits.length = 4 ∧ visits.countP Visit.changed = 2 ∧
      (visits.map fun v => v.fixes.length).sum = 1 ∧ totals.symbolsQualified = symbols.length ∧
      ∀ symbol, symbol ∈ last.eliminatedByLength ↔ symbol ∈ symbols := by
  intro r symbols
  obtain ⟨hcounts, hcollapsed⟩ :
      (r.visitRoots [['.']]).1.toOption.map (fun totals =>
        (totals.filesScanned, totals.filesChanged, totals.patchesApplied)) = some (4, 2, 1) ∧
      symbolsOf (r.attempts [['.']]) = symbols := by decide +kernel
  rcases hrun : r.visitRoots [['.']] with ⟨e | totals, last⟩
  · rw [hrun] at hcounts
    cases hcounts
  · rw [hrun] at hcounts
    obtain ⟨hfour, hmore⟩ := Prod.mk.inj (Option.some.inj hcounts)
    obtain ⟨htwo, hone⟩ := Prod.mk.inj hmore
    obtain ⟨visits, hvisits, -, -, hscanned, hchanged, hpatched, -, hqualified, -, hlisted⟩ :=
      visitRoots_totals hrun
    have hnone : r.eliminatedByLength = [] := by
      simp [eliminatedByLength, r, Table.keys, Table.empty]
    rw [hcollapsed] at hqualified hlisted
    refine ⟨totals, last, visits, rfl, hvisits, ?_, ?_, ?_, ?_, fun symbol => ?_⟩
    · exact (Nat.zero_add _).symm.trans (hscanned.symm.trans hfour)
    · exact (Nat.zero_add _).symm.trans (hchanged.symm.trans htwo)
    · exact (Nat.zero_add _).symm.trans (hpatched.symm.trans hone)
    · exact hqualified.trans (Nat.zero_add _)
    · rw [hlisted, hnone]
      simp

end Run
end Namespacer
