import Mathlib.Data.List.Pairwise
import Namespacer.Proofs.Run.PlainImports
import Namespacer.Proofs.Run.Unattended

/-! The order of visits. When nobody attends a run, one that goes through leaves the same names,
texts and totals in whatever order it takes the files. Only whether it goes through may depend on
the order, for a name can be refused because of plain imports seen before. -/
namespace Namespacer

open Text

namespace Table

variable {α : Type}

theorem ext_find? {t t' : Table α} (h : ∀ key, t.find? key = t'.find? key) : t = t' := by
  have hmem (e : Text × α) : e ∈ t.entries ↔ e ∈ t'.entries := by
    rw [mem_entries_iff, mem_entries_iff, h]
  have hnodup (t : Table α) : t.entries.Nodup := by
    refine List.Pairwise.imp (fun {a b} hlt => ?_) t.sorted
    rintro rfl
    exact List.lt_irrefl _ hlt
  have hperm := (List.perm_ext_iff_of_nodup (hnodup t) (hnodup t')).mpr hmem
  refine ext (hperm.eq_of_pairwise (fun a b _ _ hab hba => ?_) t.sorted t'.sorted)
  exact absurd hab (List.lt_asymm hba)

theorem eq_of_contains {t t' : Table Unit}
    (h : ∀ key, t.contains key = true ↔ t'.contains key = true) : t = t' := by
  refine ext_find? fun key => ?_
  have hkey := h key
  unfold contains at hkey
  cases hfind : t.find? key with
  | none =>
    cases hfind' : t'.find? key with
    | none => rfl
    | some _ => simp [hfind, hfind'] at hkey
  | some _ =>
    cases hfind' : t'.find? key with
    | none => simp [hfind, hfind'] at hkey
    | some _ => rfl

end Table

theorem NameMap.name?_eq_of_nameOrSuggestion {m m' : NameMap} {key : ModulePath}
    (hsome : (m.name? key).isSome = true ↔ (m'.name? key).isSome = true)
    (h : m.nameOrSuggestion key = m'.nameOrSuggestion key) : m.name? key = m'.name? key := by
  unfold nameOrSuggestion at h
  cases hname : m.name? key with
  | none =>
    cases hname' : m'.name? key with
    | none => rfl
    | some name' => simp [hname, hname'] at hsome
  | some name =>
    cases hname' : m'.name? key with
    | none => simp [hname, hname'] at hsome
    | some name' =>
      rw [hname, hname'] at h
      exact congrArg some h

/-- The tables of names and owners are determined by either of them. -/
theorem NameMap.OneToOne.eq_of_name?_eq {m m' : NameMap} (h : m.OneToOne) (h' : m'.OneToOne)
    (hname : ∀ key, m.name? key = m'.name? key) : m.names = m'.names ∧ m.owners = m'.owners := by
  refine ⟨Table.ext_find? fun key => hname ⟨key⟩, Table.ext_find? fun name => ?_⟩
  apply Option.ext
  intro path
  change m.owner? name = some path ↔ m'.owner? name = some path
  rw [← h, ← h', hname]

theorem NameMap.ofStore_store {store : Store} {disk : Disk} {m : NameMap}
    (h : ofStore store disk = .ok m) : m.store = store := by
  rw [ofStore_eq] at h
  split at h
  · cases h
    rfl
  · contradiction

theorem Disk.pairwise_not_alias_iff {disk disk' : Disk} (h : disk.SameOutline disk')
    {files : List Text} : files.Pairwise (fun f g => ¬ disk'.Alias f g) ↔
      files.Pairwise fun f g => ¬ disk.Alias f g := by
  simp only [h.alias_iff]

namespace Run

/-- Additions to one state that name the same modules, eliminate the same symbols and have the same
counts lead to the same names and totals. -/
theorem Adds.eq_of_same {r r₁ r₂ : Run} {keys₁ keys₂ : List ModulePath}
    {symbols₁ symbols₂ : List Text} {counts : Totals} (h₁ : r.Adds keys₁ symbols₁ counts r₁)
    (h₂ : r.Adds keys₂ symbols₂ counts r₂) (hr : r.Unattended) (hone₁ : r₁.names.OneToOne)
    (hone₂ : r₂.names.OneToOne) (hkeys : ∀ key, key ∈ keys₁ ↔ key ∈ keys₂)
    (hsymbols : ∀ symbol, symbol ∈ symbols₁ ↔ symbol ∈ symbols₂) :
    r₁.names = r₂.names ∧ r₁.eliminated = r₂.eliminated ∧ r₁.totals = r₂.totals := by
  have hname (key : ModulePath) : r₁.names.name? key = r₂.names.name? key := by
    apply NameMap.name?_eq_of_nameOrSuggestion
    · rw [h₁.named, h₂.named, hkeys]
    · rw [h₁.nameOrSuggestion, h₂.nameOrSuggestion]
  obtain ⟨hnames, howners⟩ := hone₁.eq_of_name?_eq hone₂ hname
  obtain ⟨saves, hsaves⟩ := hr.store
  obtain ⟨n₁, hsize₁, hstore₁, htotals₁⟩ := h₁.counted
  obtain ⟨n₂, hsize₂, hstore₂, htotals₂⟩ := h₂.counted
  obtain rfl : n₁ = n₂ := by
    rw [hnames] at hsize₁
    omega
  have hstore : r₁.names.store = r₂.names.store := by
    rw [hstore₁ saves hsaves, hstore₂ saves hsaves, hnames]
  refine ⟨?_, Table.eq_of_contains fun symbol => ?_, by rw [htotals₁, htotals₂]⟩
  · change NameMap.mk r₁.names.names r₁.names.owners r₁.names.store = r₂.names
    rw [hnames, howners, hstore]
  · rw [h₁.eliminated, h₂.eliminated, hsymbols]

/-- What a run finds in some files if it visits none of them before. -/
def found (r : Run) (root : Text) (files : List Text) : List Visited :=
  files.filterMap (r.finds root)

/-- Visits of different files lead to what is found in these files beforehand. -/
theorem visitFiles_unattended {r last : Run} (hr : r.Unattended) {root : Text}
    {files : List Text} (hdistinct : files.Pairwise fun f g => ¬ r.disk.Alias f g)
    (h : r.visitFiles root files = (.ok (), last)) :
    r.Adds ((r.found root files).flatMap Visited.keys)
        ((r.found root files).flatMap Visited.symbols)
        (Totals.sum ((r.found root files).map (·.countsBy r.names.nameOrSuggestion))) last ∧
      r.disk.Rewrites
        ((r.found root files).map fun v => (v.file, v.textBy r.names.nameOrSuggestion))
        last.disk := by
  induction files generalizing r with
  | nil =>
    cases h
    exact ⟨.of_eq rfl rfl rfl rfl rfl, .refl _⟩
  | cons file files ih =>
    obtain ⟨visit, hvisit, hrest⟩ := visitFiles_cons h
    obtain ⟨hother, hdistinct⟩ := List.pairwise_cons.mp hdistinct
    obtain ⟨v, hv, hadds, hdisk⟩ := visitFile_unattended hr hvisit
    -- the first visit changes neither what the other files hold nor what modules are called
    have hfound : (r.visitFile root file).2.found root files = r.found root files := by
      refine List.filterMap_congr fun f hf => finds_eq hadds.options hdisk.outline ?_ root
      exact hdisk.read_eq_of_not_alias fun halias => hother f hf halias.symm
    obtain ⟨hadds', hdisk'⟩ := ih (hadds.unattended hr)
      ((Disk.pairwise_not_alias_iff hdisk.outline).mpr hdistinct) hrest
    rw [hfound, hadds.nameOrSuggestion] at hadds' hdisk'
    have hcons : r.found root (file :: files) = v :: r.found root files :=
      List.filterMap_cons_some hv
    rw [hcons]
    refine ⟨hadds.trans hadds', ?_⟩
    rw [List.map_cons, file_of_finds hv]
    exact hdisk.trans hdisk'

/-- Each file is found by one of the paths only. -/
theorem eq_of_alias {r : Run} {root : Text} {files : List Text}
    (hdistinct : files.Pairwise fun f g => ¬ r.disk.Alias f g) {v w : Visited}
    (hv : v ∈ r.found root files) (hw : w ∈ r.found root files)
    (halias : r.disk.Alias v.file w.file) : v = w := by
  obtain ⟨f, hf, hfv⟩ := List.mem_filterMap.mp hv
  obtain ⟨g, hg, hgw⟩ := List.mem_filterMap.mp hw
  rw [file_of_finds hfv, file_of_finds hgw] at halias
  have : Std.Symm fun f g => ¬ r.disk.Alias f g := ⟨fun _ _ hne h => hne h.symm⟩
  have hsame : f = g := by
    by_contra hne
    exact hdistinct.forall hf hg hne halias
  rw [hsame, hgw] at hfv
  exact (Option.some.inj hfv).symm

/-- If nobody attends a run and it goes through different files in two orders, it leaves the same
names, the same texts, the same totals and the same eliminated symbols. -/
theorem visitFiles_perm {r r₁ r₂ : Run} {root : Text} {files files' : List Text}
    {entries : Table Text} {saves : Nat} (haccepting : r.respondent = .accepting)
    (hopen : NameMap.ofStore (.memory entries saves) r.disk = .ok r.names)
    (hdistinct : files.Pairwise fun f g => ¬ r.disk.Alias f g) (hperm : files.Perm files')
    (h₁ : r.visitFiles root files = (.ok (), r₁))
    (h₂ : r.visitFiles root files' = (.ok (), r₂)) :
    r₁.names = r₂.names ∧ (∀ path, r₁.disk.read path = r₂.disk.read path) ∧
      r₁.totals = r₂.totals ∧ r₁.eliminatedByLength = r₂.eliminatedByLength := by
  have hr : r.Unattended := by
    refine ⟨haccepting, saves, ?_⟩
    rw [NameMap.ofStore_names hopen]
    exact NameMap.ofStore_store hopen
  have hone := NameMap.ofStore_oneToOne hopen
  have hdistinct' : files'.Pairwise fun f g => ¬ r.disk.Alias f g :=
    (hperm.pairwise_iff fun hne h => hne h.symm).mp hdistinct
  obtain ⟨hadds₁, hdisk₁⟩ := visitFiles_unattended hr hdistinct h₁
  obtain ⟨hadds₂, hdisk₂⟩ := visitFiles_unattended hr hdistinct' h₂
  have hfound : (r.found root files).Perm (r.found root files') := hperm.filterMap _
  rw [Totals.sum_eq_of_perm (hfound.map _)] at hadds₁
  obtain ⟨hnames, heliminated, htotals⟩ := hadds₁.eq_of_same hadds₂ hr
    ((visitFiles_precedes h₁).oneToOne hone) ((visitFiles_precedes h₂).oneToOne hone)
    (fun _ => (hfound.flatMap_right _).mem_iff) (fun _ => (hfound.flatMap_right _).mem_iff)
  refine ⟨hnames, hdisk₁.read_eq_of_perm hdisk₂ (hfound.map _) ?_, htotals, ?_⟩
  · intro e he e' he' halias
    obtain ⟨v, hv, rfl⟩ := List.mem_map.mp he
    obtain ⟨w, hw, rfl⟩ := List.mem_map.mp he'
    rw [eq_of_alias hdistinct hv hw halias]
  · rw [eliminatedByLength, heliminated, eliminatedByLength]

/-- A run over two files that import the same module, one of which imports a module with a name. -/
def overTwoImporters : Run :=
  { disk := ⟨[("a.js".toList, .file (.text
        "let {f} = require('./m');let {g} = require('./n.js'); f(g)".toList)),
      ("b.js".toList, .file (.text
        "let {h} = require('./k.js');let {f} = require('./m.js');".toList)),
      ("k.js".toList, .file (.text [])), ("m.js".toList, .file (.text [])),
      ("n.js".toList, .file (.text []))], []⟩
    names := ⟨.ofList [("./n.js".toList, "Node".toList)],
      .ofList [("Node".toList, ⟨"./n.js".toList⟩)],
      .memory (.ofList [("./n.js".toList, "Node".toList)]) 4⟩
    respondent := .accepting
    options := {} }

/-- The modules are named in one order or the other, and all ends the same. -/
theorem visitFiles_perm_two_importers :
    ∃ r₁ r₂, overTwoImporters.visitFiles ['.'] ["a.js".toList, "b.js".toList] = (.ok (), r₁) ∧
      overTwoImporters.visitFiles ['.'] ["b.js".toList, "a.js".toList] = (.ok (), r₂) ∧
      r₁.asked ≠ r₂.asked ∧ r₁.names = r₂.names ∧
      r₂.disk.read "a.js".toList = .ok (.text
        "let M = require('./m.js');let Node = require('./n.js'); M.f(Node.g)".toList) ∧
      r₁.disk.read "a.js".toList = r₂.disk.read "a.js".toList ∧
      r₁.totals = r₂.totals ∧ r₁.eliminatedByLength = r₂.eliminatedByLength := by
  let first := overTwoImporters.visitFiles ['.'] ["a.js".toList, "b.js".toList]
  let second := overTwoImporters.visitFiles ['.'] ["b.js".toList, "a.js".toList]
  obtain ⟨hfirst, hsecond, hasked, htext⟩ :
      first.1.toOption.isSome = true ∧ second.1.toOption.isSome = true ∧
        first.2.asked ≠ second.2.asked ∧
        second.2.disk.read "a.js".toList = .ok (.text
          "let M = require('./m.js');let Node = require('./n.js'); M.f(Node.g)".toList) := by
    decide +kernel
  obtain ⟨_, hfirst⟩ : ∃ a, first = (.ok a, first.2) := exists_ok hfirst
  obtain ⟨_, hsecond⟩ : ∃ a, second = (.ok a, second.2) := exists_ok hsecond
  have hopen : NameMap.ofStore (.memory (.ofList [("./n.js".toList, "Node".toList)]) 4)
      overTwoImporters.disk = .ok overTwoImporters.names := rfl
  have hdistinct : ["a.js".toList, "b.js".toList].Pairwise
      fun f g => ¬ overTwoImporters.disk.Alias f g := by
    unfold Disk.Alias
    decide +kernel
  obtain ⟨hnames, hread, htotals, heliminated⟩ :=
    visitFiles_perm rfl hopen hdistinct (.swap _ _ []) hfirst hsecond
  exact ⟨_, _, hfirst, hsecond, hasked, hnames, htext, hread _, htotals, heliminated⟩

end Run
end Namespacer
