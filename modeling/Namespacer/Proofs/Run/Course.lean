import Namespacer.Proofs.Disk.Evolution
import Namespacer.Proofs.Name.Kept
import Namespacer.Proofs.Run.Visit

/-! The course of a run that succeeds: which files it visits, what it finds in them, and how its
state goes on from visit to visit. Modules keep their names, and the disk changes as little as the
keeping of names allows. -/
namespace Namespacer

open Text

/-! Storing names. -/

/-- Saving leaves the disk as it is or moves a file to the path of the store. -/
theorem Store.save_disk {store store' : Store} {entries : Table Text} {disk disk' : Disk}
    {result : Except Failure Unit} (h : store.save entries disk = (result, store', disk')) :
    store'.path? = store.path? ∧
      (disk' = disk ∨ ∃ path t, store.path? = some path ∧ disk.moveInto path t = .ok disk') := by
  cases store with
  | memory held saves =>
    cases h
    exact ⟨rfl, .inl rfl⟩
  | rehearsed loads saves =>
    cases saves with
    | nil =>
      cases h
      exact ⟨rfl, .inl rfl⟩
    | cons fine saves =>
      cases fine with
      | false =>
        cases h
        exact ⟨rfl, .inl rfl⟩
      | true =>
        cases h
        exact ⟨rfl, .inl rfl⟩
  | file path =>
    obtain ⟨rfl, ⟨-, hmoved⟩ | ⟨-, rfl⟩⟩ := save_file h
    · exact ⟨rfl, .inr ⟨path, _, rfl, hmoved⟩⟩
    · exact ⟨rfl, .inl rfl⟩

theorem NameMap.assign_disk {m m' : NameMap} {disk disk' : Disk} {path : ModulePath} {name : Text}
    {plain : Table ModulePath} {result : Except Failure Unit}
    (h : m.assign disk path name plain = (result, m', disk')) :
    m'.store.path? = m.store.path? ∧
      (disk' = disk ∨ ∃ path t, m.store.path? = some path ∧ disk.moveInto path t = .ok disk') := by
  unfold assign at h
  split at h
  · obtain ⟨-, hrest⟩ := Prod.mk.inj h
    cases hrest
    exact ⟨rfl, .inl rfl⟩
  · split at h
    · cases h
      exact ⟨rfl, .inl rfl⟩
    · dsimp only at h
      split at h
      · next hsave =>
        cases h
        exact Store.save_disk hsave
      · next hsave =>
        cases h
        exact Store.save_disk hsave

namespace Run

/-! From one state to a later one. -/

/-- What a later state of a run has in common with an earlier one. -/
structure Precedes (r r' : Run) : Prop where
  options : r'.options = r.options
  path? : r'.names.store.path? = r.names.store.path?
  name? : ∀ module name, r.names.name? module = some name → r'.names.name? module = some name
  oneToOne : r.names.OneToOne → r'.names.OneToOne
  identifiers : r.names.Identifiers → r'.names.Identifiers
  disk : r.disk.isSorted = true → Disk.Evolves r.names.store.path? r.disk r'.disk

namespace Precedes

variable {r r' r'' : Run}

theorem of_eq (hdisk : r'.disk = r.disk) (hnames : r'.names = r.names)
    (hoptions : r'.options = r.options) : r.Precedes r' where
  options := hoptions
  path? := by rw [hnames]
  name? module name h := by rwa [hnames]
  oneToOne h := by rwa [hnames]
  identifiers h := by rwa [hnames]
  disk hsorted := .of_bare hsorted (by rw [hdisk])

theorem trans (h : r.Precedes r') (h' : r'.Precedes r'') : r.Precedes r'' where
  options := h'.options.trans h.options
  path? := h'.path?.trans h.path?
  name? module name hname := h'.name? module name (h.name? module name hname)
  oneToOne hone := h'.oneToOne (h.oneToOne hone)
  identifiers hids := h'.identifiers (h.identifiers hids)
  disk hsorted := by
    have hfirst := h.disk hsorted
    have hthen := h'.disk hfirst.sorted
    rw [h.path?] at hthen
    exact hfirst.trans hthen

end Precedes

theorem writeText_precedes {r r' : Run} {needed : Bool} {file t : Text}
    (h : r.writeText needed file t = .ok r') : r.Precedes r' := by
  rcases writeText_eq_ok h with ⟨-, rfl⟩ | ⟨-, disk, hwrite, rfl⟩
  · exact .of_eq rfl rfl rfl
  · exact ⟨rfl, rfl, fun _ _ hname => hname, id, id,
      fun hsorted => .of_bare hsorted (Disk.bare_of_write hsorted hwrite)⟩

theorem ask_precedes (r : Run) (question : NameQuestion) : r.Precedes (r.ask question).2 :=
  .of_eq rfl rfl rfl

theorem credit_precedes (r : Run) (module : ModulePath) (d : Destructuring) (name : Text) :
    r.Precedes (r.credit module d name) := .of_eq rfl rfl rfl

theorem assign_precedes {r r' : Run} {key : ModulePath} {name : Text}
    (hname : isIdentifier name = true) (h : r.assign key name = (.ok (), r')) : r.Precedes r' := by
  obtain ⟨names, disk, _, hassign, rfl⟩ := assign_eq h
  obtain ⟨hpath, hdisk⟩ := NameMap.assign_disk hassign
  refine ⟨rfl, hpath, fun _ _ => NameMap.name?_assign_of_some hassign,
    fun hone => NameMap.assign_oneToOne hone hassign, fun hids => hids.assign hname hassign,
    fun hsorted => ?_⟩
  rcases hdisk with rfl | ⟨path, t, hstore, hmoved⟩
  · exact .of_bare hsorted rfl
  · exact .of_moveInto hsorted hstore hmoved

theorem nameFor_precedes {r r' : Run} {module : ModulePath} {d : Destructuring} {name : Text}
    (h : r.nameFor module d = (.ok name, r')) : r.Precedes r' := by
  cases nameFor_ends h with
  | had => exact .of_eq rfl rfl rfl
  | named _ _ hsettled hassigned =>
    have hname := ModuleName.isIdentifier_settle hsettled
    exact (r.ask_precedes _).trans (assign_precedes hname hassigned)

theorem collapseAll_precedes {r r' : Run} {path t : Text}
    {destructured : List (ModulePath × Destructuring)} {renamed : List (ModulePath × Text)}
    {t' : Text} (h : r.collapseAll path destructured t = (.ok (renamed, t'), r')) :
    r.Precedes r' := by
  induction destructured generalizing r t renamed with
  | nil =>
    cases h
    exact .of_eq rfl rfl rfl
  | cons e destructured ih =>
    obtain ⟨module, d⟩ := e
    obtain ⟨name, named, renamed', hnamed, -, hrest, -⟩ := collapseAll_cons h
    exact (nameFor_precedes hnamed).trans ((named.credit_precedes module d name).trans (ih hrest))

theorem collapseAll_named {r r' : Run} {path t : Text}
    {destructured : List (ModulePath × Destructuring)} {renamed : List (ModulePath × Text)}
    {t' : Text} (h : r.collapseAll path destructured t = (.ok (renamed, t'), r')) :
    ∀ e ∈ destructured, ∃ name, r'.names.name? e.1.key = some name := by
  induction destructured generalizing r t renamed with
  | nil => simp
  | cons e destructured ih =>
    obtain ⟨module, d⟩ := e
    obtain ⟨name, named, renamed', hnamed, -, hrest, -⟩ := collapseAll_cons h
    have hlater := (named.credit_precedes module d name).trans (collapseAll_precedes hrest)
    have hkept := hlater.name? module.key name (name?_nameFor hnamed)
    exact List.forall_mem_cons.mpr ⟨⟨name, hkept⟩, ih hrest⟩

theorem visitFile_precedes {r r' : Run} {root file : Text} {visit : Visit}
    (h : r.visitFile root file = (.ok visit, r')) : r.Precedes r' := by
  cases visitFile_ends h with
  | @done source t survey renamed patched last written hsource hsurvey hpatched hcollapsed
      hwritten =>
    have hsurveyed : r.Precedes (r.surveyed (PathText.relativeTo root file) source survey) :=
      .of_eq rfl rfl rfl
    have hremembered : patched.Precedes (patched.remember survey.plain) := .of_eq rfl rfl rfl
    refine (hsurveyed.trans (writeText_precedes hpatched)).trans ?_
    refine (hremembered.trans (collapseAll_precedes hcollapsed)).trans ?_
    exact (writeText_precedes hwritten).trans (.of_eq rfl rfl rfl)

/-! The files that are visited. -/

/-- A visit of a file, with what is read and found there. -/
structure Visited where
  root : Text
  file : Text
  source : Text
  survey : Survey

def Visited.site (v : Visited) : Site := ⟨v.root, PathText.relativeTo v.root v.file⟩

/-- The visit of one file, if it can be read and surveyed. -/
def visited? (r : Run) (root file : Text) : Option Visited :=
  match r.readText file with
  | .error _ => none
  | .ok source =>
    match r.survey root file source with
    | .error _ => none
    | .ok survey => some ⟨root, file, source, survey⟩

theorem visited?_eq_some {r : Run} {root file : Text} {v : Visited}
    (h : r.visited? root file = some v) :
    v.root = root ∧ v.file = file ∧ r.readText file = .ok v.source ∧
      r.survey root file v.source = .ok v.survey := by
  unfold visited? at h
  split at h
  · contradiction
  · next hsource =>
    split at h
    · contradiction
    · next hsurvey =>
      cases h
      exact ⟨rfl, rfl, hsource, hsurvey⟩

def visitedFiles (r : Run) (root : Text) : List Text → List Visited
  | [] => []
  | file :: files =>
    (r.visited? root file).toList ++ (r.visitFile root file).2.visitedFiles root files

/-- The absolute form of a root, and the source files below it. -/
def listing? (r : Run) (root : Text) : Option (Text × List Text) :=
  (PathText.absolute? r.disk.cwdText root).bind fun root =>
    (r.disk.sourcesUnder root r.options.filter).toOption.map fun files => (root, files)

/-- The visits of a run, root after root. -/
def visited (r : Run) : List Text → List Visited
  | [] => []
  | root :: roots =>
    let here := match r.listing? root with
      | none => []
      | some (root, files) => (r.counted root files).visitedFiles root files
    here ++ (r.visitRoot root).2.visited roots

/-- What a visit of a run that ends with `last` was based on. -/
structure Made (r : Run) (v : Visited) (last : Run) : Prop where
  surveys : r.survey v.root v.file v.source = .ok v.survey
  precedes : r.Precedes last
  named : ∀ e ∈ v.survey.destructured, ∃ name, last.names.name? e.1 = some name

theorem visitFile_made {r r' : Run} {root file : Text} {visit : Visit}
    (h : r.visitFile root file = (.ok visit, r')) :
    ∃ v, r.visited? root file = some v ∧ v.root = root ∧ v.file = file ∧ r.Made v r' := by
  obtain ⟨source, survey, patched, last, t, hsource, hsurvey, -, -, hcollapse, hnames, -⟩ :=
    visitFile_ok h
  refine ⟨⟨root, file, source, survey⟩, ?_, rfl, rfl, hsurvey, visitFile_precedes h, ?_⟩
  · rw [visited?, hsource]
    dsimp only
    rw [hsurvey]
  · intro e he
    rw [hnames, ← (Survey.ofSource_destructured hsurvey e he).2]
    exact collapseAll_named hcollapse e he

theorem Made.trans {r r' r'' : Run} {v : Visited} (h : r.Made v r') (h' : r'.Precedes r'') :
    r.Made v r'' := by
  refine ⟨h.surveys, h.precedes.trans h', fun e he => ?_⟩
  obtain ⟨name, hname⟩ := h.named e he
  exact ⟨name, h'.name? _ _ hname⟩

/-! All files below a root. -/

theorem visitFiles_cons {r last : Run} {root file : Text} {files : List Text}
    (h : r.visitFiles root (file :: files) = (.ok (), last)) :
    ∃ visit, r.visitFile root file = (.ok visit, (r.visitFile root file).2) ∧
      (r.visitFile root file).2.visitFiles root files = (.ok (), last) := by
  rw [visitFiles] at h
  split at h
  · cases h
  · next visit r' hvisit =>
    rw [hvisit]
    exact ⟨visit, rfl, h⟩

theorem visitFiles_precedes {r last : Run} {root : Text} {files : List Text}
    (h : r.visitFiles root files = (.ok (), last)) : r.Precedes last := by
  induction files generalizing r with
  | nil =>
    cases h
    exact .of_eq rfl rfl rfl
  | cons file files ih =>
    obtain ⟨visit, hvisit, hrest⟩ := visitFiles_cons h
    exact (visitFile_precedes hvisit).trans (ih hrest)

theorem mem_visitedFiles {r last : Run} {root : Text} {files : List Text}
    (h : r.visitFiles root files = (.ok (), last)) {v : Visited}
    (hv : v ∈ r.visitedFiles root files) :
    v.root = root ∧ v.file ∈ files ∧ ∃ s, r.Precedes s ∧ s.Made v last := by
  induction files generalizing r with
  | nil => simp [visitedFiles] at hv
  | cons file files ih =>
    obtain ⟨visit, hvisit, hrest⟩ := visitFiles_cons h
    obtain ⟨w, hw, hroot, hfile, hmade⟩ := visitFile_made hvisit
    rw [visitedFiles, hw, Option.toList_some, List.singleton_append] at hv
    rcases List.mem_cons.mp hv with rfl | hv
    · exact ⟨hroot, hfile ▸ List.mem_cons_self, r, .of_eq rfl rfl rfl,
        hmade.trans (visitFiles_precedes hrest)⟩
    · obtain ⟨hroot, hfile, s, hs, hmade⟩ := ih hrest hv
      exact ⟨hroot, List.mem_cons_of_mem _ hfile, s, (visitFile_precedes hvisit).trans hs, hmade⟩

theorem exists_visitedFiles {r last : Run} {root : Text} {files : List Text}
    (h : r.visitFiles root files = (.ok (), last)) {file : Text} (hfile : file ∈ files) :
    ∃ v ∈ r.visitedFiles root files, v.file = file := by
  induction files generalizing r with
  | nil => contradiction
  | cons first files ih =>
    obtain ⟨visit, hvisit, hrest⟩ := visitFiles_cons h
    obtain ⟨w, hw, -, hwfile, -⟩ := visitFile_made hvisit
    rw [visitedFiles, hw, Option.toList_some, List.singleton_append]
    rcases List.mem_cons.mp hfile with rfl | hfile
    · exact ⟨w, List.mem_cons_self, hwfile⟩
    · obtain ⟨v, hv, hvfile⟩ := ih hrest hfile
      exact ⟨v, List.mem_cons_of_mem _ hv, hvfile⟩

/-! All roots. -/

theorem visitRoot_of_listing? {r : Run} {root root' : Text} {files : List Text}
    (h : r.listing? root = some (root', files)) :
    r.visitRoot root = (r.counted root' files).visitFiles root' files := by
  unfold listing? at h
  obtain ⟨absolute, habsolute, h⟩ := Option.bind_eq_some_iff.mp h
  obtain ⟨found, hfound, h⟩ := Option.map_eq_some_iff.mp h
  cases h
  rw [visitRoot, habsolute]
  dsimp only
  cases hsources : r.disk.sourcesUnder root' r.options.filter with
  | error e =>
    rw [hsources] at hfound
    contradiction
  | ok files' =>
    rw [hsources] at hfound
    cases hfound
    rfl

theorem visitRoot_of_listing?_none {r : Run} {root : Text} (h : r.listing? root = none) :
    ∃ e, r.visitRoot root = (.error e, r) := by
  unfold listing? at h
  unfold visitRoot
  split
  · exact ⟨_, rfl⟩
  · next absolute habsolute =>
    rw [habsolute, Option.bind_some, Option.map_eq_none_iff] at h
    split
    · exact ⟨_, rfl⟩
    · next files hfiles =>
      rw [hfiles] at h
      contradiction

/-- A run over roots goes through the files below the first and on from there. -/
theorem visitRoots_cons {r last : Run} {root : Text} {roots : List Text} {totals : Totals}
    (h : r.visitRoots (root :: roots) = (.ok totals, last)) :
    ∃ root' files next, r.listing? root = some (root', files) ∧
      (r.counted root' files).visitFiles root' files = (.ok (), next) ∧
      next.visitRoots roots = (.ok totals, last) ∧
      r.visited (root :: roots) =
        (r.counted root' files).visitedFiles root' files ++ next.visited roots := by
  cases hlisting : r.listing? root with
  | none =>
    obtain ⟨e, he⟩ := visitRoot_of_listing?_none hlisting
    rw [visitRoots, he] at h
    cases h
  | some found =>
    obtain ⟨root', files⟩ := found
    have hroot := visitRoot_of_listing? hlisting
    rw [visitRoots, hroot] at h
    split at h
    · cases h
    · next next hnext =>
      refine ⟨root', files, next, rfl, hnext, h, ?_⟩
      rw [visited, hlisting, hroot, hnext]

theorem counted_precedes (r : Run) (root : Text) (files : List Text) :
    r.Precedes (r.counted root files) := .of_eq rfl rfl rfl

theorem visitRoots_precedes {r last : Run} {roots : List Text} {totals : Totals}
    (h : r.visitRoots roots = (.ok totals, last)) : r.Precedes last := by
  induction roots generalizing r with
  | nil =>
    cases h
    exact .of_eq rfl rfl rfl
  | cons root roots ih =>
    obtain ⟨root', files, next, -, hnext, hrest, -⟩ := visitRoots_cons h
    exact (r.counted_precedes root' files).trans ((visitFiles_precedes hnext).trans (ih hrest))

/-- Every visit of a run is made at some point, of a file that is listed under one of the roots. -/
theorem mem_visited {r last : Run} {roots : List Text} {totals : Totals}
    (h : r.visitRoots roots = (.ok totals, last)) {v : Visited} (hv : v ∈ r.visited roots) :
    (∃ s, r.Precedes s ∧ s.Made v last) ∧
      ∃ root ∈ roots, ∃ s files, r.Precedes s ∧ s.Precedes last ∧
        s.listing? root = some (v.root, files) ∧ v.file ∈ files := by
  induction roots generalizing r with
  | nil => simp [visited] at hv
  | cons root roots ih =>
    obtain ⟨root', files, next, hlisting, hnext, hrest, hvisited⟩ := visitRoots_cons h
    have hcounted := r.counted_precedes root' files
    have hfirst := hcounted.trans (visitFiles_precedes hnext)
    have hlast := visitRoots_precedes hrest
    rw [hvisited] at hv
    rcases List.mem_append.mp hv with hv | hv
    · obtain ⟨rfl, hfile, s, hs, hmade⟩ := mem_visitedFiles hnext hv
      exact ⟨⟨s, hcounted.trans hs, hmade.trans hlast⟩, root, List.mem_cons_self, r, files,
        .of_eq rfl rfl rfl, hfirst.trans hlast, hlisting, hfile⟩
    · obtain ⟨⟨s, hs, hmade⟩, root', hroot', s', files', hs', hlast', hlisting', hfile⟩ :=
        ih hrest hv
      exact ⟨⟨s, hfirst.trans hs, hmade⟩, root', List.mem_cons_of_mem _ hroot', s', files',
        hfirst.trans hs', hlast', hlisting', hfile⟩

/-- Every file that is listed under a root is visited. -/
theorem exists_visited {r last : Run} {roots : List Text} {totals : Totals}
    (h : r.visitRoots roots = (.ok totals, last)) {root : Text} (hroot : root ∈ roots) :
    ∃ s root' files, r.Precedes s ∧ s.Precedes last ∧ s.listing? root = some (root', files) ∧
      ∀ file ∈ files, ∃ v ∈ r.visited roots, v.root = root' ∧ v.file = file := by
  induction roots generalizing r with
  | nil => contradiction
  | cons first roots ih =>
    obtain ⟨root', files, next, hlisting, hnext, hrest, hvisited⟩ := visitRoots_cons h
    have hfirst := (r.counted_precedes root' files).trans (visitFiles_precedes hnext)
    rw [hvisited]
    rcases List.mem_cons.mp hroot with rfl | hroot
    · refine ⟨r, root', files, .of_eq rfl rfl rfl, hfirst.trans (visitRoots_precedes hrest),
        hlisting, fun file hfile => ?_⟩
      obtain ⟨v, hv, rfl⟩ := exists_visitedFiles hnext hfile
      exact ⟨v, List.mem_append_left _ hv, (mem_visitedFiles hnext hv).1, rfl⟩
    · obtain ⟨s, root', files, hs, hlast, hlisting, hall⟩ := ih hrest hroot
      refine ⟨s, root', files, hfirst.trans hs, hlast, hlisting, fun file hfile => ?_⟩
      obtain ⟨v, hv, hvroot, hvfile⟩ := hall file hfile
      exact ⟨v, List.mem_append_right _ hv, hvroot, hvfile⟩

end Run
end Namespacer
