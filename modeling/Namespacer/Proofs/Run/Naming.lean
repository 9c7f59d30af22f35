import Namespacer.Proofs.Import.Rest
import Namespacer.Proofs.Run.Course
import Namespacer.Proofs.Run.Imports

/-! The names that visits give to modules, over any sequence of visits. A visit that fails may have
named some modules of its file already; these names stay, as all others do. -/
namespace Namespacer

open Text

theorem Table.size_insert_of_find? {α : Type} {t : Table α} {key : Text} (value : α)
    (h : t.find? key = none) : (t.insert key value).size = t.size + 1 := by
  suffices hall : ∀ entries : List (Text × α), findIn key entries = none →
      (insertIn key value entries).length = entries.length + 1 from hall t.entries h
  intro entries hnone
  induction entries with
  | nil => rfl
  | cons head rest ih =>
    obtain ⟨k, a⟩ := head
    rw [findIn] at hnone
    split at hnone
    · contradiction
    · next hne =>
      rw [insertIn]
      split
      · rfl
      · rw [if_neg (Ne.symm hne), List.length_cons, ih hnone, List.length_cons]

/-- The key of a local path is local: folding away an index file leaves the path to its directory,
which is not empty. -/
theorem ModulePath.isLocal_key {path : ModulePath} (h : path.isLocal = true) :
    path.key.isLocal = true := by
  cases hpath : before? indexFile path.text with
  | none =>
    have hkey : path.key = path := by simp only [key, hpath]
    rwa [hkey]
  | some dir =>
    have hkey : path.key = ⟨dir ++ ['/']⟩ := by simp only [key, hpath]
    have hstart : localMarker <+: path.text := startsWith_iff.mp h
    have htext : path.text = dir ++ indexFile := before?_eq_some_iff.mp hpath
    have hdir : dir ++ ['/'] <+: path.text := by
      rw [htext]
      exact (List.prefix_append_right_inj dir).mpr ⟨_, rfl⟩
    have hlength : localMarker.length ≤ (dir ++ ['/']).length := by
      cases dir with
      | nil =>
        rw [htext] at hstart
        exact absurd hstart (by decide)
      | cons c dir => simp [localMarker]
    rw [hkey]
    exact startsWith_iff.mpr (List.prefix_of_prefix_length_le hstart hdir hlength)

/-- Only local modules are filed for a name. -/
theorem Survey.isLocal_key_of_mem {site : Site} {probe : Probe}
    {owner? : Text → Option ModulePath} {pathsOnly : Bool} {source : Text} {survey : Survey}
    (h : ofSource site probe owner? pathsOnly source = .ok survey)
    {e : ModulePath × Destructuring} (he : e ∈ survey.destructured) : e.1.key.isLocal = true := by
  obtain ⟨s, -, hfiling⟩ := exists_filing?_of_mem h he
  rw [Statement.key_of_filing? hfiling, ModulePath.key_key]
  exact ModulePath.isLocal_key (Statement.isLocal_of_filing? hfiling)

namespace Run

/-- What a later state of a run adds to the names of an earlier one. -/
structure Grows (r r' : Run) : Prop where
  kept : ∀ k n, r.names.name? k = some n → r'.names.name? k = some n
  added : ∀ k n, r.names.name? k = none → r'.names.name? k = some n →
    k.isLocal = true ∧ k.key = k ∧ isIdentifier n = true
  counted : r'.names.names.size + r.totals.modulesNamed =
    r.names.names.size + r'.totals.modulesNamed

namespace Grows

variable {r r' r'' : Run}

theorem of_eq (hnames : r'.names.names = r.names.names)
    (htotals : r'.totals.modulesNamed = r.totals.modulesNamed) : r.Grows r' where
  kept k n h := by rwa [NameMap.name?, hnames]
  added k n hnone hsome := by
    rw [NameMap.name?, hnames, ← NameMap.name?, hnone] at hsome
    contradiction
  counted := by rw [hnames, htotals]

theorem trans (h : r.Grows r') (h' : r'.Grows r'') : r.Grows r'' where
  kept k n hn := h'.kept k n (h.kept k n hn)
  added k n hnone hsome := by
    cases hk : r'.names.name? k with
    | none => exact h'.added k n hk hsome
    | some n' =>
      have hsame := (h'.kept k n' hk).symm.trans hsome
      exact h.added k n hnone (hk.trans hsame)
  counted := by
    have hfirst := h.counted
    have hthen := h'.counted
    omega

end Grows

/-! One step after another. Each may fail. -/

theorem assign_grows {r r' : Run} {k : ModulePath} {name : Text} {result : Except Failure Unit}
    (hlocal : k.isLocal = true) (hkey : k.key = k) (hname : isIdentifier name = true)
    (hnone : r.names.name? k = none) (h : r.assign k name = (result, r')) : r.Grows r' := by
  unfold assign at h
  split at h
  · next hassign =>
    cases h
    rcases NameMap.assign_cases hassign with ⟨hnames, -, -⟩ | ⟨hok, -⟩
    · exact .of_eq hnames rfl
    · contradiction
  · next names disk hassign =>
    cases h
    rcases NameMap.assign_cases hassign with ⟨-, -, hhad⟩ | ⟨-, -, -, -, hnames, -⟩
    · rw [hhad rfl] at hnone
      contradiction
    · refine ⟨fun _ _ => NameMap.name?_assign_of_some hassign, fun k' n hnone' hsome => ?_, ?_⟩
      · rw [NameMap.name?, hnames, Table.find?_insert] at hsome
        split at hsome
        · next htext =>
          obtain rfl : k = k' := by
            cases k
            cases k'
            exact congrArg ModulePath.mk htext
          cases hsome
          exact ⟨hlocal, hkey, hname⟩
        · rw [NameMap.name?] at hnone'
          rw [hnone'] at hsome
          contradiction
      · dsimp only
        rw [hnames, Table.size_insert_of_find? name hnone]
        omega

theorem ask_grows (r : Run) (question : NameQuestion) : r.Grows (r.ask question).2 :=
  .of_eq rfl rfl

theorem nameFor_grows {r r' : Run} {module : ModulePath} {d : Destructuring}
    {result : Except Failure Text} (hlocal : module.key.isLocal = true)
    (h : r.nameFor module d = (result, r')) : r.Grows r' := by
  rcases nameFor_state h with rfl | ⟨hnone, question, rfl | ⟨name, given, hname, hassign⟩⟩
  · exact .of_eq rfl rfl
  · exact r.ask_grows question
  · exact (r.ask_grows question).trans
      (assign_grows hlocal (ModulePath.key_key module) hname hnone hassign)

theorem collapseAll_grows {r r' : Run} {path t : Text}
    {destructured : List (ModulePath × Destructuring)}
    {result : Except Failure (List (ModulePath × Text) × Text)}
    (hlocal : ∀ e ∈ destructured, e.1.key.isLocal = true)
    (h : r.collapseAll path destructured t = (result, r')) : r.Grows r' :=
  collapseAll_steps Grows (fun _ => .of_eq rfl rfl) Grows.trans (fun _ _ _ _ => .of_eq rfl rfl)
    (fun e he _ _ _ hnamed => nameFor_grows (hlocal e he) hnamed) h

theorem writeText_grows {r r' : Run} {needed : Bool} {file t : Text}
    (h : r.writeText needed file t = .ok r') : r.Grows r' := by
  obtain ⟨_, rfl⟩ := exists_disk_of_writeText h
  exact .of_eq rfl rfl

theorem visitFile_grows {r r' : Run} {root file : Text} {result : Except Failure Visit}
    (h : r.visitFile root file = (result, r')) : r.Grows r' := by
  have hpatch {source : Text} {survey : Survey} {patched : Run}
      (hpatched : (r.surveyed (PathText.relativeTo root file) source survey).writeText
        (survey.patched source ≠ source) file (survey.patched source) = .ok patched) :
      r.Grows (patched.remember survey.plain) := by
    have hsurveyed : r.Grows (r.surveyed (PathText.relativeTo root file) source survey) :=
      .of_eq rfl rfl
    exact (hsurveyed.trans (writeText_grows hpatched)).trans (.of_eq rfl rfl)
  have hlocal {source : Text} {survey : Survey} (hsurvey : r.survey root file source = .ok survey)
      (e : ModulePath × Destructuring) (he : e ∈ survey.destructured) : e.1.key.isLocal = true :=
    Survey.isLocal_key_of_mem hsurvey he
  cases visitFile_ends h with
  | unread => exact .of_eq rfl rfl
  | unsurveyed => exact .of_eq rfl rfl
  | unpatched => exact .of_eq rfl rfl
  | uncollapsed _ hsurvey hpatched hcollapsed =>
    exact (hpatch hpatched).trans (collapseAll_grows (hlocal hsurvey) hcollapsed)
  | unwritten _ hsurvey hpatched hcollapsed =>
    exact (hpatch hpatched).trans (collapseAll_grows (hlocal hsurvey) hcollapsed)
  | done _ hsurvey hpatched hcollapsed hwritten =>
    have hlast := (hpatch hpatched).trans (collapseAll_grows (hlocal hsurvey) hcollapsed)
    exact (hlast.trans (writeText_grows hwritten)).trans (.of_eq rfl rfl)

theorem name?_of_mem_renamed {r r' : Run} {path t t' : Text}
    {destructured : List (ModulePath × Destructuring)} {renamed : List (ModulePath × Text)}
    (h : r.collapseAll path destructured t = (.ok (renamed, t'), r')) :
    ∀ e ∈ renamed, r'.names.name? e.1 = some e.2 := by
  induction destructured generalizing r t renamed with
  | nil =>
    cases h
    simp
  | cons e destructured ih =>
    obtain ⟨module, d⟩ := e
    obtain ⟨name, named, renamed', hnamed, -, hrest, rfl⟩ := collapseAll_cons h
    have hlater := (named.credit_precedes module d name).trans (collapseAll_precedes hrest)
    have hkept := hlater.name? module.key name (name?_nameFor hnamed)
    exact List.forall_mem_cons.mpr ⟨hkept, ih hrest⟩

/-! Visits one after another. -/

/-- Files are visited one after another, each visit with its own result. A failure does not end the
sequence, and before each visit any files may lie on the disk and any answers may be waiting. -/
inductive Calls : (r : Run) → (results : List (Except Failure Visit)) → (r' : Run) → Prop where
  | nil {r : Run} : Calls r [] r
  | cons {r r₁ r' : Run} {disk : Disk} {respondent : Respondent} {root file : Text}
      {result : Except Failure Visit} {results : List (Except Failure Visit)}
      (hvisit : { r with disk, respondent }.visitFile root file = (result, r₁))
      (hrest : Calls r₁ results r') : Calls r (result :: results) r'

namespace Calls

variable {r r' : Run} {results : List (Except Failure Visit)}

theorem grows (h : Calls r results r') : r.Grows r' := by
  induction h with
  | nil => exact .of_eq rfl rfl
  | @cons r r₁ r' disk respondent _ _ _ _ hvisit _ ih =>
    have hstart : r.Grows { r with disk, respondent } := .of_eq rfl rfl
    exact (hstart.trans (visitFile_grows hvisit)).trans ih

theorem name?_of_renamed (h : Calls r results r') {visit : Visit} (hvisit : .ok visit ∈ results)
    {k : ModulePath} {n : Text} (hn : (k, n) ∈ visit.renamed) : r'.names.name? k = some n := by
  induction h with
  | nil => contradiction
  | cons hfirst hrest ih =>
    rcases List.mem_cons.mp hvisit with rfl | hvisit
    · obtain ⟨_, _, _, last, _, -, -, -, -, hcollapse, hlast, -⟩ := visitFile_ok hfirst
      have hnow := name?_of_mem_renamed hcollapse _ hn
      rw [← hlast] at hnow
      exact hrest.grows.kept k n hnow
    · exact ih hvisit

end Calls

/-- Over any sequence of visits, modules keep their names, and only local keys are named, by
identifiers. As many entries are added as modules are counted. A module for which a visit succeeded
has the name that it was given there from then on, so that all visits agree on it. -/
theorem calls_names {r r' : Run} {results : List (Except Failure Visit)}
    (h : Calls r results r') :
    (∀ k n, r.names.name? k = some n → r'.names.name? k = some n) ∧
    (∀ k n, r.names.name? k = none → r'.names.name? k = some n →
      k.isLocal = true ∧ k.key = k ∧ isIdentifier n = true) ∧
    r'.names.names.size + r.totals.modulesNamed =
      r.names.names.size + r'.totals.modulesNamed ∧
    ∀ visit, .ok visit ∈ results → ∀ k n, (k, n) ∈ visit.renamed →
      r'.names.name? k = some n ∧
        ∀ other, .ok other ∈ results → ∀ n', (k, n') ∈ other.renamed → n' = n := by
  refine ⟨h.grows.kept, h.grows.added, h.grows.counted, fun visit hvisit k n hn => ?_⟩
  have hname := h.name?_of_renamed hvisit hn
  refine ⟨hname, fun other hother n' hn' => ?_⟩
  have hname' := h.name?_of_renamed hother hn'
  exact Option.some.inj (hname'.symm.trans hname)

theorem exists_error {α : Type} {x : Except Failure α × Run}
    (h : x.1.toOption.isNone = true) : ∃ e, x = (.error e, x.2) := by
  obtain ⟨result, r⟩ := x
  cases result with
  | error e => exact ⟨e, rfl⟩
  | ok a => contradiction

theorem exists_ok_of_map {α β : Type} {x : Except Failure α × Run} {f : α → β} {b : β}
    (h : x.1.toOption.map f = some b) : ∃ a, x = (.ok a, x.2) ∧ f a = b := by
  obtain ⟨result, r⟩ := x
  cases result with
  | error e => contradiction
  | ok a => exact ⟨a, rfl, Option.some.inj h⟩

/-- A visit fails for want of an answer after it has named one of two modules. The visit that
follows finds that name and asks for the other. -/
theorem calls_names_unanswered :
    let r := SuccessfulVisit.overFile
      "let { a } = require('./m.js');\nlet { b } = require('./n.js');\n"
    ∃ e visit r', Calls r [.error e, .ok visit] r' ∧
      visit.renamed = [(⟨"./m.js".toList⟩, ['X']), (⟨"./n.js".toList⟩, ['N'])] ∧
      r'.names.name? ⟨"./m.js".toList⟩ = some ['X'] ∧
      r'.names.name? ⟨"./n.js".toList⟩ = some ['N'] ∧ r'.names.names.size = 2 ∧
      r'.totals.modulesNamed = 2 := by
  intro r
  let first := { r with respondent := .prepared [some ['X'], none] }.visitFile ['.'] "a.js".toList
  let second := { first.2 with respondent := .accepting }.visitFile ['.'] "a.js".toList
  have hfirst : first.1.toOption.isNone = true := by decide +kernel
  have hsecond : second.1.toOption.map Visit.renamed =
      some [(⟨"./m.js".toList⟩, ['X']), (⟨"./n.js".toList⟩, ['N'])] := by decide +kernel
  have hsize : second.2.names.names.size = 2 := by decide +kernel
  obtain ⟨e, he⟩ := exists_error hfirst
  obtain ⟨visit, hvisit, hrenamed⟩ := exists_ok_of_map hsecond
  have hcalls : Calls r [.error e, .ok visit] second.2 := .cons he (.cons hvisit .nil)
  obtain ⟨-, -, hcounted, hnames⟩ := calls_names hcalls
  have hname {k : ModulePath} {n : Text} (hn : (k, n) ∈ visit.renamed) :=
    (hnames visit (by simp) k n hn).1
  rw [hsize] at hcounted
  refine ⟨e, visit, second.2, hcalls, hrenamed, hname ?_, hname ?_, hsize, ?_⟩
  · simp [hrenamed]
  · simp [hrenamed]
  · have hbefore : r.totals.modulesNamed = 0 ∧ r.names.names.size = 0 := ⟨rfl, rfl⟩
    omega

end Run
end Namespacer
