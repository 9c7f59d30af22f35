import Namespacer.Run.Basic
import Namespacer.Proofs.Disk.Write
import Namespacer.Proofs.Import.Fresh
import Namespacer.Proofs.Import.Survey
import Namespacer.Proofs.Name.OneToOne

/-! What a visit of a file does: the text that it leaves in the file, and what it adds to the names
of modules and to the plain imports seen. -/
namespace Namespacer

open Text

/-- The source text with its specifiers completed. -/
def Survey.patched (a : Survey) (source : Text) : Text := Patch.applyAll a.patches source

def NameMap.Identifiers (m : NameMap) : Prop :=
  ∀ path name, m.name? path = some name → isIdentifier name = true

theorem NameMap.Identifiers.assign {m m' : NameMap} (h : m.Identifiers) {disk disk' : Disk}
    {path : ModulePath} {name : Text} {plain : Table ModulePath} {result : Except Failure Unit}
    (hname : isIdentifier name = true)
    (hassign : m.assign disk path name plain = (result, m', disk')) : m'.Identifiers := by
  intro p n hn
  rcases assign_cases hassign with ⟨hnames, -, -⟩ | ⟨-, -, -, -, hnames, -⟩
  · rw [NameMap.name?, hnames] at hn
    exact h p n hn
  · rw [NameMap.name?, hnames, Table.find?_insert] at hn
    split at hn
    · cases hn
      exact hname
    · exact h p n hn

theorem ModuleName.isIdentifier_settle {answer suggestion name : Text} {module : ModulePath}
    (h : settle answer suggestion module = .ok name) : isIdentifier name = true := by
  unfold settle at h
  generalize (if (trim answer).isEmpty then suggestion else trim answer) = chosen at h
  dsimp only at h
  split at h
  · contradiction
  · split at h
    · next hname =>
      cases h
      exact hname
    · contradiction

namespace Run

/-- What is asked about a module that has no name. -/
def questionOf (module : ModulePath) (d : Destructuring) : NameQuestion :=
  ⟨module.key, d.literal, d.symbols, ModuleName.suggest module.key⟩

/-- How naming a module ends: with which result, in which state, and after which stages. -/
inductive NamingEnds (r : Run) (module : ModulePath) (d : Destructuring) :
    Except Failure Text → Run → Prop
  | had {name : Text} (hname : r.names.name? module.key = some name) :
      NamingEnds r module d (.ok name) r
  | unanswered {e : Failure} (hnone : r.names.name? module.key = none)
      (hasked : (r.ask (questionOf module d)).1 = .error e) :
      NamingEnds r module d (.error e) (r.ask (questionOf module d)).2
  | unsettled {answer : Text} {f : Fault} (hnone : r.names.name? module.key = none)
      (hasked : (r.ask (questionOf module d)).1 = .ok answer)
      (hsettled : ModuleName.settle answer (ModuleName.suggest module.key) module.key = .error f) :
      NamingEnds r module d (.error (.fault f)) (r.ask (questionOf module d)).2
  | refused {answer name : Text} {e : Failure} {r' : Run}
      (hnone : r.names.name? module.key = none)
      (hasked : (r.ask (questionOf module d)).1 = .ok answer)
      (hsettled : ModuleName.settle answer (ModuleName.suggest module.key) module.key = .ok name)
      (hassigned : (r.ask (questionOf module d)).2.assign module.key name = (.error e, r')) :
      NamingEnds r module d (.error e) r'
  | named {answer name : Text} {r' : Run} (hnone : r.names.name? module.key = none)
      (hasked : (r.ask (questionOf module d)).1 = .ok answer)
      (hsettled : ModuleName.settle answer (ModuleName.suggest module.key) module.key = .ok name)
      (hassigned : (r.ask (questionOf module d)).2.assign module.key name = (.ok (), r')) :
      NamingEnds r module d (.ok name) r'

theorem nameFor_ends {r r' : Run} {module : ModulePath} {d : Destructuring}
    {result : Except Failure Text} (h : r.nameFor module d = (result, r')) :
    r.NamingEnds module d result r' := by
  unfold nameFor at h
  dsimp only at h
  split at h
  · next hname =>
    cases h
    exact .had hname
  · next hnone =>
    split at h
    · next asked hask =>
      obtain rfl : (r.ask _).2 = asked := congrArg Prod.snd hask
      cases h
      exact .unanswered hnone (congrArg Prod.fst hask)
    · next answer asked hask =>
      obtain rfl : (r.ask _).2 = asked := congrArg Prod.snd hask
      have hasked : (r.ask (questionOf module d)).1 = .ok answer := congrArg Prod.fst hask
      split at h
      · next hsettled =>
        cases h
        exact .unsettled hnone hasked hsettled
      · next name hsettled =>
        split at h
        · next hassigned =>
          cases h
          exact .refused hnone hasked hsettled hassigned
        · next hassigned =>
          cases h
          exact .named hnone hasked hsettled hassigned

/-- Assigning a name changes the names, where they are kept, and a count. -/
theorem assign_eq {r r' : Run} {key : ModulePath} {name : Text} {result : Except Failure Unit}
    (h : r.assign key name = (result, r')) :
    ∃ names disk modulesNamed,
      r.names.assign r.disk key name r.plain = (result, names, disk) ∧
        r' = { r with names, disk, totals := { r.totals with modulesNamed } } := by
  unfold assign at h
  split at h
  · next names disk hassign =>
    cases h
    exact ⟨names, disk, r.totals.modulesNamed, hassign, rfl⟩
  · next names disk hassign =>
    cases h
    exact ⟨names, disk, r.totals.modulesNamed + 1, hassign, rfl⟩

/-- The name of a module has been there or is given to it now; nothing else that matters for later
files changes. -/
theorem nameFor_cases {r r' : Run} {module : ModulePath} {d : Destructuring} {name : Text}
    (h : r.nameFor module d = (.ok name, r')) :
    r'.plain = r.plain ∧ r'.options = r.options ∧
      ((r.names.name? module.key = some name ∧ r'.names = r.names) ∨
        isIdentifier name = true ∧
          r.names.assign r.disk module.key name r.plain = (.ok (), r'.names, r'.disk)) := by
  cases nameFor_ends h with
  | had hname => exact ⟨rfl, rfl, .inl ⟨hname, rfl⟩⟩
  | named _ _ hsettled hassigned =>
    obtain ⟨names, disk, _, hassign, rfl⟩ := assign_eq hassigned
    exact ⟨rfl, rfl, .inr ⟨ModuleName.isIdentifier_settle hsettled, hassign⟩⟩

theorem name?_nameFor {r r' : Run} {module : ModulePath} {d : Destructuring} {name : Text}
    (h : r.nameFor module d = (.ok name, r')) : r'.names.name? module.key = some name := by
  obtain ⟨-, -, ⟨hname, hsame⟩ | ⟨-, hassign⟩⟩ := nameFor_cases h
  · rw [hsame, hname]
  · exact NameMap.name?_assign hassign

/-- Whatever comes of naming a module, it is that the module had a name, or that one was asked for
and, if it is an identifier, assigned. -/
theorem nameFor_state {r r' : Run} {module : ModulePath} {d : Destructuring}
    {result : Except Failure Text} (h : r.nameFor module d = (result, r')) :
    r' = r ∨ r.names.name? module.key = none ∧ ∃ question, r' = (r.ask question).2 ∨
      ∃ name given, isIdentifier name = true ∧
        (r.ask question).2.assign module.key name = (given, r') := by
  cases nameFor_ends h with
  | had => exact .inl rfl
  | unanswered hnone => exact .inr ⟨hnone, _, .inl rfl⟩
  | unsettled hnone => exact .inr ⟨hnone, _, .inl rfl⟩
  | refused hnone _ hsettled hassigned =>
    exact .inr ⟨hnone, _, .inr ⟨_, _, ModuleName.isIdentifier_settle hsettled, hassigned⟩⟩
  | named hnone _ hsettled hassigned =>
    exact .inr ⟨hnone, _, .inr ⟨_, _, ModuleName.isIdentifier_settle hsettled, hassigned⟩⟩

/-- Whatever comes of collapsing the imports of a file, the state gets there by naming modules and
counting collapses. -/
theorem collapseAll_steps (rel : Run → Run → Prop) (hrefl : ∀ r, rel r r)
    (htrans : ∀ {r r' r'' : Run}, rel r r' → rel r' r'' → rel r r'')
    (hcredit : ∀ (r : Run) (module : ModulePath) (d : Destructuring) (name : Text),
      rel r (r.credit module d name))
    {destructured : List (ModulePath × Destructuring)}
    (hname : ∀ e ∈ destructured, ∀ (r r' : Run) (result : Except Failure Text),
      r.nameFor e.1 e.2 = (result, r') → rel r r')
    {r r' : Run} {path t : Text} {result : Except Failure (List (ModulePath × Text) × Text)}
    (h : r.collapseAll path destructured t = (result, r')) : rel r r' := by
  induction destructured generalizing r t result with
  | nil =>
    cases h
    exact hrefl _
  | cons e destructured ih =>
    obtain ⟨module, d⟩ := e
    obtain ⟨hmodule, hlater⟩ := List.forall_mem_cons.mp hname
    unfold collapseAll at h
    split at h
    · next hnamed =>
      cases h
      exact hmodule _ _ _ hnamed
    · next name named hnamed =>
      have hfirst : rel r named := hmodule _ _ _ hnamed
      split at h
      · cases h
        exact hfirst
      · have hcredited := htrans hfirst (hcredit named module d name)
        split at h
        · next hfailed =>
          cases h
          exact htrans hcredited (ih hlater hfailed)
        · next hdone =>
          cases h
          exact htrans hcredited (ih hlater hdone)

theorem collapseAll_cons {r r' : Run} {path t t' : Text} {module : ModulePath} {d : Destructuring}
    {destructured : List (ModulePath × Destructuring)} {renamed : List (ModulePath × Text)}
    (h : r.collapseAll path ((module, d) :: destructured) t = (.ok (renamed, t'), r')) :
    ∃ name named renamed', r.nameFor module d = (.ok name, named) ∧ hasWord name t = false ∧
      (named.credit module d name).collapseAll path destructured
        ((⟨d, name⟩ : Collapse).applied t) = (.ok (renamed', t'), r') ∧
      renamed = (module.key, name) :: renamed' := by
  unfold collapseAll at h
  split at h
  · cases h
  · next name named hnamed =>
    rw [Collapse.collapse_eq] at h
    split at h
    · cases h
    · next u hcollapse =>
      split at h
      · cases h
      · next renamed' u' last hrest =>
        cases h
        split at hcollapse
        · cases hcollapse
        · next hword =>
          cases hcollapse
          exact ⟨name, named, renamed', hnamed, by simpa using hword, hrest, rfl⟩

/-- What every new name keeps is kept while the imports of a file are collapsed. -/
theorem collapseAll_induction {motive : NameMap → Prop} {plain : Table ModulePath}
    (hassign : ∀ {m m' : NameMap} {disk disk' : Disk} {path : ModulePath} {name : Text},
      isIdentifier name = true → m.assign disk path name plain = (.ok (), m', disk') →
        motive m → motive m')
    {r r' : Run} {path t t' : Text} {destructured : List (ModulePath × Destructuring)}
    {renamed : List (ModulePath × Text)}
    (h : r.collapseAll path destructured t = (.ok (renamed, t'), r')) (hplain : r.plain = plain)
    (hr : motive r.names) : motive r'.names ∧ r'.plain = plain := by
  induction destructured generalizing r t renamed with
  | nil =>
    cases h
    exact ⟨hr, hplain⟩
  | cons e destructured ih =>
    obtain ⟨module, d⟩ := e
    obtain ⟨name, named, renamed', hnamed, -, hrest, -⟩ := collapseAll_cons h
    obtain ⟨hsame, -, hcases⟩ := nameFor_cases hnamed
    refine ih hrest (hsame.trans hplain) ?_
    rcases hcases with ⟨-, hnames⟩ | ⟨hname, hnew⟩
    · exact hnames ▸ hr
    · exact hassign hname (hplain ▸ hnew) hr

def nameOf (r : Run) (module : ModulePath) : Text := (r.names.name? module.key).getD []

/-- The collapses of some destructuring imports to the names that their modules have. -/
def collapses (r : Run) (destructured : List (ModulePath × Destructuring)) : List Collapse :=
  destructured.map fun e => ⟨e.2, r.nameOf e.1⟩

theorem collapses_cons (r : Run) (module : ModulePath) (d : Destructuring)
    (destructured : List (ModulePath × Destructuring)) :
    r.collapses ((module, d) :: destructured) =
      ⟨d, r.nameOf module⟩ :: r.collapses destructured := rfl

theorem forall_mem_collapses (r : Run) (destructured : List (ModulePath × Destructuring))
    (P : Destructuring → Prop) :
    (∀ c ∈ r.collapses destructured, P c.record) ↔ ∀ e ∈ destructured, P e.2 := by
  unfold collapses
  rw [List.forall_mem_map]

/-- Collapsing succeeds with the text that the collapses lead to, one after another. -/
theorem collapseAll_ok {r r' : Run} {path t t' : Text}
    {destructured : List (ModulePath × Destructuring)} {renamed : List (ModulePath × Text)}
    (h : r.collapseAll path destructured t = (.ok (renamed, t'), r'))
    (hnames : r.names.Identifiers) :
    renamed = destructured.map (fun e => (e.1.key, r'.nameOf e.1)) ∧
      t' = Collapse.appliedAll (r'.collapses destructured) t ∧
      Collapse.namesFresh (r'.collapses destructured) t = true ∧
      ∀ e ∈ destructured, isIdentifier (r'.nameOf e.1) = true := by
  induction destructured generalizing r t renamed with
  | nil =>
    cases h
    exact ⟨rfl, rfl, rfl, by simp⟩
  | cons e destructured ih =>
    obtain ⟨module, d⟩ := e
    obtain ⟨name, named, renamed', hnamed, hword, hrest, rfl⟩ := collapseAll_cons h
    have hids : named.names.Identifiers := by
      obtain ⟨-, -, ⟨-, hsame⟩ | ⟨hname, hassign⟩⟩ := nameFor_cases hnamed
      · rwa [hsame]
      · exact hnames.assign hname hassign
    have hnow : named.names.name? module.key = some name := name?_nameFor hnamed
    have hhas : r'.names.name? module.key = some name :=
      (collapseAll_induction (motive := fun m => m.name? module.key = some name)
        (fun _ hassign hm => NameMap.name?_assign_of_some hassign hm) hrest rfl hnow).1
    have hnameOf : r'.nameOf module = name := by rw [nameOf, hhas, Option.getD_some]
    obtain ⟨hrenamed, ht', hfresh, hidentifiers⟩ := ih hrest hids
    refine ⟨?_, ?_, ?_, List.forall_mem_cons.mpr ⟨?_, hidentifiers⟩⟩
    · rw [List.map_cons, hnameOf, hrenamed]
    · rw [ht', collapses_cons, hnameOf, Collapse.appliedAll_cons]
    · rw [collapses_cons, hnameOf, Collapse.namesFresh, hword, Bool.not_false, Bool.true_and]
      exact hfresh
    · rw [hnameOf]
      exact hids _ _ hnow

/-! A whole visit. -/

theorem readText_eq_ok_iff {r : Run} {file t : Text} :
    r.readText file = .ok t ↔ r.disk.read file = .ok (.text t) := by
  unfold readText
  constructor
  · intro h
    split at h
    · next hread =>
      cases h
      exact hread
    · contradiction
    · contradiction
  · intro h
    rw [h]

theorem readText_eq_error {r : Run} {file : Text} {e : Failure} (h : r.readText file = .error e) :
    ∃ cause, e = .read file cause := by
  unfold readText at h
  split at h
  · contradiction
  · cases h
    exact ⟨_, rfl⟩
  · cases h
    exact ⟨_, rfl⟩

section WriteText

variable {r r' : Run} {needed : Bool} {file t : Text}

/-- A text is written, or nothing happens where that is not needed. -/
theorem writeText_eq_ok (h : r.writeText needed file t = .ok r') :
    (needed = false ∧ r' = r) ∨
      needed = true ∧ ∃ disk, r.disk.write file t = .ok disk ∧ r' = { r with disk } := by
  cases needed with
  | false =>
    cases h
    exact .inl ⟨rfl, rfl⟩
  | true =>
    rw [writeText, if_pos rfl] at h
    split at h
    · next disk hwrite =>
      cases h
      exact .inr ⟨rfl, disk, hwrite, rfl⟩
    · contradiction

theorem writeText_eq_error {e : Failure} (h : r.writeText needed file t = .error e) :
    ∃ cause, e = .write file cause := by
  unfold writeText at h
  split at h
  · split at h
    · contradiction
    · cases h
      exact ⟨_, rfl⟩
  · contradiction

theorem exists_disk_of_writeText (h : r.writeText needed file t = .ok r') :
    ∃ disk, r' = { r with disk } := by
  rcases writeText_eq_ok h with ⟨-, rfl⟩ | ⟨-, disk, -, rfl⟩
  · exact ⟨r'.disk, rfl⟩
  · exact ⟨disk, rfl⟩

theorem readText_of_writeText (h : r.writeText needed file t = .ok r') (hneeded : needed = true) :
    r'.readText file = .ok t := by
  rcases writeText_eq_ok h with ⟨hfree, -⟩ | ⟨-, disk, hwrite, rfl⟩
  · rw [hneeded] at hfree
    contradiction
  · exact readText_eq_ok_iff.mpr (Disk.read_of_write hwrite)

end WriteText

theorem readText_of_writeText_ne {r r' : Run} {file source t : Text}
    (h : r.writeText (t ≠ source) file t = .ok r') (hsource : r.readText file = .ok source) :
    r'.readText file = .ok t := by
  rcases writeText_eq_ok h with ⟨hfree, rfl⟩ | ⟨hneeded, -⟩
  · have hsame : t = source := by simpa using hfree
    rw [hsame, hsource]
  · exact readText_of_writeText h hneeded

def survey (r : Run) (root file source : Text) : Except Fault Survey :=
  Survey.ofSource ⟨root, PathText.relativeTo root file⟩ r.disk.probe r.names.owner?
    r.options.pathsOnly source

/-- How a visit of a file ends: with which result, in which state, and after which stages. -/
inductive VisitEnds (r : Run) (root file : Text) : Except Failure Visit → Run → Prop
  | unread {e : Failure} (hsource : r.readText file = .error e) :
      VisitEnds r root file (.error e) r
  | unsurveyed {source : Text} {f : Fault} (hsource : r.readText file = .ok source)
      (hsurvey : r.survey root file source = .error f) :
      VisitEnds r root file (.error (.survey (PathText.relativeTo root file) f)) r
  | unpatched {source : Text} {survey : Survey} {e : Failure}
      (hsource : r.readText file = .ok source) (hsurvey : r.survey root file source = .ok survey)
      (hpatched : (r.surveyed (PathText.relativeTo root file) source survey).writeText
        (survey.patched source ≠ source) file (survey.patched source) = .error e) :
      VisitEnds r root file (.error e) (r.surveyed (PathText.relativeTo root file) source survey)
  | uncollapsed {source : Text} {survey : Survey} {patched last : Run} {e : Failure}
      (hsource : r.readText file = .ok source) (hsurvey : r.survey root file source = .ok survey)
      (hpatched : (r.surveyed (PathText.relativeTo root file) source survey).writeText
        (survey.patched source ≠ source) file (survey.patched source) = .ok patched)
      (hcollapsed : (patched.remember survey.plain).collapseAll (PathText.relativeTo root file)
        survey.destructured (survey.patched source) = (.error e, last)) :
      VisitEnds r root file (.error e) last
  | unwritten {source t : Text} {survey : Survey} {renamed : List (ModulePath × Text)}
      {patched last : Run} {e : Failure}
      (hsource : r.readText file = .ok source) (hsurvey : r.survey root file source = .ok survey)
      (hpatched : (r.surveyed (PathText.relativeTo root file) source survey).writeText
        (survey.patched source ≠ source) file (survey.patched source) = .ok patched)
      (hcollapsed : (patched.remember survey.plain).collapseAll (PathText.relativeTo root file)
        survey.destructured (survey.patched source) = (.ok (renamed, t), last))
      (hwritten : last.writeText (!survey.destructured.isEmpty) file t = .error e) :
      VisitEnds r root file (.error e) last
  | done {source t : Text} {survey : Survey} {renamed : List (ModulePath × Text)}
      {patched last written : Run}
      (hsource : r.readText file = .ok source) (hsurvey : r.survey root file source = .ok survey)
      (hpatched : (r.surveyed (PathText.relativeTo root file) source survey).writeText
        (survey.patched source ≠ source) file (survey.patched source) = .ok patched)
      (hcollapsed : (patched.remember survey.plain).collapseAll (PathText.relativeTo root file)
        survey.destructured (survey.patched source) = (.ok (renamed, t), last))
      (hwritten : last.writeText (!survey.destructured.isEmpty) file t = .ok written) :
      VisitEnds r root file
        (.ok ⟨PathText.relativeTo root file, survey.warnings, survey.fixes, renamed, t ≠ source⟩)
        (written.finish (!survey.destructured.isEmpty) (t ≠ source))

theorem visitFile_ends {r r' : Run} {root file : Text} {result : Except Failure Visit}
    (h : r.visitFile root file = (result, r')) : r.VisitEnds root file result r' := by
  unfold visitFile at h
  dsimp only at h
  split at h
  · next hsource =>
    cases h
    exact .unread hsource
  · next hsource =>
    split at h
    · next hsurvey =>
      cases h
      exact .unsurveyed hsource hsurvey
    · next hsurvey =>
      split at h
      · next hpatched =>
        cases h
        exact .unpatched hsource hsurvey hpatched
      · next hpatched =>
        split at h
        · next hcollapsed =>
          cases h
          exact .uncollapsed hsource hsurvey hpatched hcollapsed
        · next hcollapsed =>
          split at h
          · next hwritten =>
            cases h
            exact .unwritten hsource hsurvey hpatched hcollapsed hwritten
          · next hwritten =>
            cases h
            exact .done hsource hsurvey hpatched hcollapsed hwritten

/-- The file holds what the text has become in the end, be it written once, twice or not at all. -/
theorem readText_written {r patched last written : Run} {root file source t : Text}
    {survey : Survey} {renamed : List (ModulePath × Text)}
    (hsource : r.readText file = .ok source)
    (hpatched : (r.surveyed (PathText.relativeTo root file) source survey).writeText
      (survey.patched source ≠ source) file (survey.patched source) = .ok patched)
    (hcollapsed : (patched.remember survey.plain).collapseAll (PathText.relativeTo root file)
      survey.destructured (survey.patched source) = (.ok (renamed, t), last))
    (hwritten : last.writeText (!survey.destructured.isEmpty) file t = .ok written) :
    written.readText file = .ok t := by
  cases hdestructured : survey.destructured with
  | nil =>
    rw [hdestructured] at hcollapsed hwritten
    cases hcollapsed
    cases hwritten
    have hread : patched.readText file = .ok (survey.patched source) :=
      readText_of_writeText_ne hpatched hsource
    exact hread
  | cons e destructured =>
    rw [hdestructured] at hwritten
    exact readText_of_writeText hwritten rfl

/-- What a visit goes through when it succeeds: the file holds the patched text, then the imports
are collapsed, and the file holds what they have become. -/
theorem visitFile_ok {r r' : Run} {root file : Text} {visit : Visit}
    (h : r.visitFile root file = (.ok visit, r')) :
    ∃ (source : Text) (survey : Survey) (patched last : Run) (t : Text),
      r.readText file = .ok source ∧ r.survey root file source = .ok survey ∧
      patched.names = r.names ∧ patched.plain = (r.remember survey.plain).plain ∧
      patched.collapseAll (PathText.relativeTo root file) survey.destructured
        (survey.patched source) = (.ok (visit.renamed, t), last) ∧
      r'.names = last.names ∧ r'.plain = last.plain ∧ r'.readText file = .ok t := by
  cases visitFile_ends h with
  | @done source t survey renamed patched last written hsource hsurvey hpatched hcollapsed
      hwritten =>
    have hread := readText_written hsource hpatched hcollapsed hwritten
    obtain ⟨_, hpatch⟩ := exists_disk_of_writeText hpatched
    obtain ⟨_, rfl⟩ := exists_disk_of_writeText hwritten
    refine ⟨source, survey, patched.remember survey.plain, last, t, hsource, hsurvey, ?_, ?_,
      hcollapsed, rfl, rfl, hread⟩
    · rw [hpatch]
      rfl
    · rw [hpatch]
      rfl

/-- The text that a visit leaves in a file, and the names that it was made with. -/
theorem visitFile_text {r r' : Run} {root file source : Text} {visit : Visit} {survey : Survey}
    (h : r.visitFile root file = (.ok visit, r')) (hsource : r.readText file = .ok source)
    (hsurvey : r.survey root file source = .ok survey) (hnames : r.names.Identifiers) :
    r'.readText file = .ok (Collapse.appliedAll (r'.collapses survey.destructured)
        (survey.patched source)) ∧
      visit.renamed = survey.destructured.map (fun e => (e.1.key, r'.nameOf e.1)) ∧
      Collapse.namesFresh (r'.collapses survey.destructured)
        (survey.patched source) = true ∧
      ∀ c ∈ r'.collapses survey.destructured, c.Proper := by
  obtain ⟨source', survey', patched, last, t, hsource', hsurvey', hpatched, -, hcollapse, hlast, -,
    htext⟩ := visitFile_ok h
  rw [hsource] at hsource'
  cases hsource'
  rw [hsurvey] at hsurvey'
  cases hsurvey'
  have hsame (module : ModulePath) : r'.nameOf module = last.nameOf module := by
    rw [nameOf, hlast, nameOf]
  have hcollapses : r'.collapses survey.destructured = last.collapses survey.destructured := by
    simp only [collapses, hsame]
  obtain ⟨hrenamed, ht, hfresh, hidentifiers⟩ := collapseAll_ok hcollapse (hpatched ▸ hnames)
  rw [hcollapses]
  refine ⟨by rw [htext, ht], by simp only [hrenamed, hsame], hfresh, fun c hc => ?_⟩
  obtain ⟨e, he, rfl⟩ := List.mem_map.mp hc
  exact ⟨(Survey.ofSource_destructured hsurvey e he).1, hidentifiers e he⟩

end Run
end Namespacer
