import Namespacer.Proofs.Run.Visit

/-! The names of modules against the plain imports of all files visited. Of a name that is plainly
imported only the first module is remembered, and it is that one which the names are checked
against. -/
namespace Namespacer

open Text

namespace Run

/-- The plain imports of a file as a run reads it, with the modules that they require. -/
def plainImportsOf (r : Run) (root file : Text) : List (Text × ModulePath) :=
  match r.readText file with
  | .ok source =>
    Survey.plainImports ⟨root, PathText.relativeTo root file⟩ r.disk.probe (importsOf source)
  | .error _ => []

/-- Files are visited one after another, all with success; `seen` lists their plain imports. -/
inductive Visits : (r : Run) → (seen : List (Text × ModulePath)) → (r' : Run) → Prop where
  | nil {r : Run} : Visits r [] r
  | cons {r r₁ r' : Run} {root file : Text} {visit : Visit} {seen : List (Text × ModulePath)}
      (hvisit : r.visitFile root file = (.ok visit, r₁)) (hrest : Visits r₁ seen r') :
      Visits r (r.plainImportsOf root file ++ seen) r'

theorem find?_foldl_insertNew (entries : List (Text × ModulePath)) (t : Table ModulePath)
    (name : Text) :
    (entries.foldl (fun t e => t.insertNew e.1 e.2) t).find? name =
      (t.find? name).or (Table.findIn name entries) := by
  induction entries generalizing t with
  | nil => cases h : t.find? name <;> simp [h, Table.findIn]
  | cons e entries ih =>
    obtain ⟨key, value⟩ := e
    rw [List.foldl_cons, ih, Table.find?_insertNew, Table.findIn]
    by_cases hkey : key = name
    · subst hkey
      cases h : t.find? key <;> simp
    · simp [hkey]

theorem find?_remember (r : Run) (plain : Table ModulePath) (name : Text) :
    (r.remember plain).plain.find? name = (r.plain.find? name).or (plain.find? name) :=
  find?_foldl_insertNew plain.entries r.plain name

end Run

/-- What holds between visits of the names of modules, the plain imports that are remembered, and
all plain imports seen. -/
structure Consistent (m : NameMap) (plain : Table ModulePath) (seen : List (Text × ModulePath)) :
    Prop where
  oneToOne : m.OneToOne
  /-- A name is remembered with one of the modules that it is imported for. -/
  remembered : ∀ name path, plain.find? name = some path → (name, path) ∈ seen
  complete : ∀ name path, (name, path) ∈ seen → (plain.find? name).isSome = true
  /-- The module that is remembered for a name is the one that has it. -/
  agrees : ∀ k name path, m.name? k = some name → plain.find? name = some path → path.key = k

namespace Consistent

theorem assign {m m' : NameMap} {plain : Table ModulePath} {seen : List (Text × ModulePath)}
    (h : Consistent m plain seen) {disk disk' : Disk} {path : ModulePath} {name : Text}
    (hassign : m.assign disk path name plain = (.ok (), m', disk')) :
    Consistent m' plain seen := by
  refine ⟨NameMap.assign_oneToOne h.oneToOne hassign, h.remembered, h.complete, ?_⟩
  intro k n p hk hp
  rcases NameMap.assign_cases hassign with ⟨hnames, -, -⟩ | ⟨-, -, -, hfree, hnames, -⟩
  · rw [NameMap.name?, hnames] at hk
    exact h.agrees k n p hk hp
  · rw [NameMap.name?, hnames, Table.find?_insert] at hk
    split at hk
    · next hpath =>
      cases hk
      rw [hfree p hp]
      cases path
      cases k
      exact congrArg ModulePath.mk hpath
    · exact h.agrees k n p hk hp

/-- The plain imports of one more file, none of which takes the name of another module. -/
theorem remember {m : NameMap} {plain plain' new : Table ModulePath}
    {seen more : List (Text × ModulePath)} (h : Consistent m plain seen)
    (hfind : ∀ name, plain'.find? name = (plain.find? name).or (new.find? name))
    (hnew : ∀ name, (∀ path, new.find? name = some path → (name, path) ∈ more) ∧
      ∀ path, (name, path) ∈ more → (new.find? name).isSome = true)
    (howner : ∀ e ∈ more, ∀ owner, m.owner? e.1 = some owner → owner = e.2.key) :
    Consistent m plain' (seen ++ more) := by
  refine ⟨h.oneToOne, fun name path hpath => ?_, fun name path hmem => ?_,
    fun k name path hk hpath => ?_⟩
  · rw [hfind, Option.or_eq_some_iff] at hpath
    rcases hpath with hpath | ⟨-, hpath⟩
    · exact List.mem_append_left _ (h.remembered name path hpath)
    · exact List.mem_append_right _ ((hnew name).1 path hpath)
  · rw [hfind, Option.isSome_or, Bool.or_eq_true]
    rcases List.mem_append.mp hmem with hmem | hmem
    · exact .inl (h.complete name path hmem)
    · exact .inr ((hnew name).2 path hmem)
  · rw [hfind, Option.or_eq_some_iff] at hpath
    rcases hpath with hpath | ⟨-, hpath⟩
    · exact h.agrees k name path hk hpath
    · exact (howner _ ((hnew name).1 path hpath) k ((h.oneToOne k name).mp hk)).symm

theorem visitFile {r r' : Run} {root file : Text} {visit : Visit}
    {seen : List (Text × ModulePath)} (h : Consistent r.names r.plain seen)
    (hvisit : r.visitFile root file = (.ok visit, r')) :
    Consistent r'.names r'.plain (seen ++ r.plainImportsOf root file) := by
  obtain ⟨source, survey, patched, last, t, hsource, hsurvey, hnames, hplain, hcollapse, hnames',
    hplain', -⟩ := Run.visitFile_ok hvisit
  have hseen : r.plainImportsOf root file =
      Survey.plainImports ⟨root, PathText.relativeTo root file⟩ r.disk.probe
        (importsOf source) := by
    rw [Run.plainImportsOf, hsource]
  have hremembered :
      Consistent patched.names patched.plain (seen ++ r.plainImportsOf root file) := by
    rw [hnames, hplain, hseen]
    exact h.remember (r.find?_remember survey.plain) (Survey.ofSource_plain hsurvey)
      (Survey.ofSource_owner? hsurvey)
  obtain ⟨hlast, hsame⟩ := Run.collapseAll_induction
    (motive := fun m => Consistent m patched.plain (seen ++ r.plainImportsOf root file))
    (fun _ hassign hm => hm.assign hassign) hcollapse rfl hremembered
  rwa [hnames', hplain', hsame]

theorem visits {r r' : Run} {seen later : List (Text × ModulePath)}
    (h : Consistent r.names r.plain seen) (hvisits : r.Visits later r') :
    Consistent r'.names r'.plain (seen ++ later) := by
  induction hvisits generalizing seen with
  | nil => simpa using h
  | cons hvisit _ ih => simpa using ih (h.visitFile hvisit)

end Consistent

/-- A name that a module has in the end is plainly imported for no other module exactly if its plain
imports, over all files visited, agree with one another. -/
theorem Run.visits_plain_iff {store : Store} {disk : Disk} {r r' : Run}
    {seen : List (Text × ModulePath)} (hopen : NameMap.ofStore store disk = .ok r.names)
    (hempty : r.plain = .empty) (hvisits : r.Visits seen r') {k : ModulePath} {name : Text}
    (hname : r'.names.name? k = some name) :
    (∀ path, (name, path) ∈ seen → path.key = k) ↔
      ∀ path path', (name, path) ∈ seen → (name, path') ∈ seen → path.key = path'.key := by
  constructor
  · intro h path path' hpath hpath'
    rw [h path hpath, h path' hpath']
  · intro h path hpath
    have hstart : Consistent r.names r.plain [] := by
      rw [hempty]
      exact ⟨NameMap.ofStore_oneToOne hopen, nofun, nofun, nofun⟩
    have hend : Consistent r'.names r'.plain seen := hstart.visits hvisits
    obtain ⟨first, hfirst⟩ := Option.isSome_iff_exists.mp (hend.complete name path hpath)
    rw [h path first hpath (hend.remembered name first hfirst)]
    exact hend.agrees k name first hname hfirst

/-- A run over two files that import different modules plainly under one name, and a third one. -/
def Run.overThreeFiles : Run :=
  { disk := ⟨[("a.js".toList, .file (.text [])), ("b.js".toList, .file (.text [])),
      ("f.js".toList, .file (.text "let X = require('./a.js');".toList)),
      ("g.js".toList, .file (.text "let X = require('./b.js');".toList)),
      ("h.js".toList, .file (.text "let { q } = require('./a.js');".toList))], []⟩
    names := ⟨.empty, .empty, .memory .empty 0⟩
    respondent := .prepared [some ['X']]
    options := {} }

theorem Run.exists_ok {α : Type} {x : Except Failure α × Run}
    (h : x.1.toOption.isSome = true) : ∃ a, x = (.ok a, x.2) := by
  obtain ⟨result, r⟩ := x
  cases result with
  | error e => contradiction
  | ok a => exact ⟨a, rfl⟩

/-- All three visits succeed, and the name of one module is plainly imported for the other. -/
theorem Run.visits_plain_iff_first_only :
    ∃ r' seen, overThreeFiles.Visits seen r' ∧ r'.names.name? ⟨"./a.js".toList⟩ = some ['X'] ∧
      ¬ ∀ path, (['X'], path) ∈ seen → path.key = ⟨"./a.js".toList⟩ := by
  let r₁ := (overThreeFiles.visitFile ['.'] "f.js".toList).2
  let r₂ := (r₁.visitFile ['.'] "g.js".toList).2
  let r₃ := (r₂.visitFile ['.'] "h.js".toList).2
  obtain ⟨_, hf⟩ : ∃ visit, overThreeFiles.visitFile ['.'] "f.js".toList = (.ok visit, r₁) :=
    exists_ok (by decide +kernel)
  obtain ⟨_, hg⟩ : ∃ visit, r₁.visitFile ['.'] "g.js".toList = (.ok visit, r₂) :=
    exists_ok (by decide +kernel)
  obtain ⟨_, hh⟩ : ∃ visit, r₂.visitFile ['.'] "h.js".toList = (.ok visit, r₃) :=
    exists_ok (by decide +kernel)
  have hvisits := Visits.cons hf (.cons hg (.cons hh .nil))
  have hname : r₃.names.name? ⟨"./a.js".toList⟩ = some ['X'] := by decide +kernel
  refine ⟨r₃, _, hvisits, hname, fun hall => ?_⟩
  have hopen : NameMap.ofStore (.memory .empty 0) overThreeFiles.disk = .ok overThreeFiles.names :=
    rfl
  have hagree := (visits_plain_iff hopen rfl hvisits hname).mp hall ⟨"./a.js".toList⟩
    ⟨"./b.js".toList⟩ (by decide +kernel) (by decide +kernel)
  exact absurd hagree (by decide +kernel)

end Namespacer
