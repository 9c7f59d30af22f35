import Namespacer.Proofs.Disk.Texts
import Namespacer.Proofs.Run.Naming

/-! Runs that nobody attends: every suggestion is accepted, and the names are kept in memory. What
such a run calls a module is settled before it begins, for it is the name that the module has or
else the one that its path suggests. So what visits add to names, totals and texts can be said in
terms of the state before them. -/
namespace Namespacer

open Text

/-! Totals and tables. -/

instance : Add Totals where
  add a b :=
    { filesScanned := a.filesScanned + b.filesScanned
      filesChanged := a.filesChanged + b.filesChanged
      patchesApplied := a.patchesApplied + b.patchesApplied
      warnings := a.warnings + b.warnings
      modulesNamed := a.modulesNamed + b.modulesNamed
      symbolsQualified := a.symbolsQualified + b.symbolsQualified }

namespace Totals

theorem add_def (a b : Totals) :
    a + b =
      { filesScanned := a.filesScanned + b.filesScanned
        filesChanged := a.filesChanged + b.filesChanged
        patchesApplied := a.patchesApplied + b.patchesApplied
        warnings := a.warnings + b.warnings
        modulesNamed := a.modulesNamed + b.modulesNamed
        symbolsQualified := a.symbolsQualified + b.symbolsQualified } := rfl

theorem add_assoc (a b c : Totals) : a + b + c = a + (b + c) := by
  simp only [add_def, Nat.add_assoc]

theorem add_comm (a b : Totals) : a + b = b + a := by
  simp only [add_def, Nat.add_comm]

theorem add_left_comm (a b c : Totals) : a + (b + c) = b + (a + c) := by
  rw [← add_assoc, add_comm a b, add_assoc]

def sum (counts : List Totals) : Totals := counts.foldr (· + ·) {}

theorem sum_eq_of_perm {counts counts' : List Totals} (h : counts.Perm counts') :
    sum counts = sum counts' :=
  h.foldr_eq' (fun a _ b _ c => add_left_comm b a c) {}

end Totals

theorem Table.contains_foldl_insert (t : Table Unit) (symbols : List Text) (symbol : Text) :
    (symbols.foldl (fun t s => t.insert s ()) t).contains symbol = true ↔
      t.contains symbol = true ∨ symbol ∈ symbols := by
  induction symbols generalizing t with
  | nil => simp
  | cons s symbols ih =>
    rw [List.foldl_cons, ih, contains, find?_insert, List.mem_cons]
    by_cases h : s = symbol
    · simp [h]
    · simp [h, Ne.symm h, contains]

theorem ModuleName.eq_of_settle_nil {suggestion name : Text} {module : ModulePath}
    (h : settle [] suggestion module = .ok name) : name = suggestion := by
  have htrim : (if (trim []).isEmpty then suggestion else trim []) = suggestion := rfl
  unfold settle at h
  rw [htrim] at h
  dsimp only at h
  split at h
  · contradiction
  · split at h
    · exact (Except.ok.inj h).symm
    · contradiction

/-- Which modules the names belong to decides only whether there is a survey. -/
theorem Survey.add_unowned {site : Site} {probe : Probe} {owner? : Text → Option ModulePath}
    {pathsOnly : Bool} {a b : Survey} {s : Statement}
    (h : a.add site probe owner? pathsOnly s = .ok b) :
    a.add site probe (fun _ => none) pathsOnly s = .ok b := by
  unfold add at h ⊢
  dsimp only at h ⊢
  split at h
  · next id hid =>
    unfold addPlain at h ⊢
    dsimp only at h ⊢
    split at h
    · contradiction
    · exact h
  · exact h

theorem Survey.ofSource_unowned {site : Site} {probe : Probe} {owner? : Text → Option ModulePath}
    {pathsOnly : Bool} {source : Text} {survey : Survey}
    (h : ofSource site probe owner? pathsOnly source = .ok survey) :
    ofSource site probe (fun _ => none) pathsOnly source = .ok survey := by
  refine ofSource_induction (motive := fun a (done : List Import) =>
    done.foldlM (fun a i => add site probe (fun _ => none) pathsOnly a i.toStatement) {} = .ok a) h
    rfl fun a i b done hdone hadd => ?_
  rw [List.foldlM_append, hdone]
  exact (bind_pure _).trans (add_unowned hadd)

/-- The name that a module has, or else the one that its path suggests. -/
def NameMap.nameOrSuggestion (m : NameMap) (key : ModulePath) : Text :=
  (m.name? key).getD (ModuleName.suggest key)

theorem NameMap.assign_memory {m m' : NameMap} {disk disk' : Disk} {path : ModulePath}
    {name : Text} {plain : Table ModulePath} {saves : Nat} (hnone : m.name? path = none)
    (hstore : m.store = .memory m.names saves)
    (h : m.assign disk path name plain = (.ok (), m', disk')) :
    disk' = disk ∧ m'.names = m.names.insert path.text name ∧
      m'.store = .memory m'.names (saves + 1) := by
  unfold assign at h
  rw [hnone, hstore] at h
  dsimp only at h
  split at h
  · cases h
  · cases h
    exact ⟨rfl, rfl, rfl⟩

theorem NameMap.name?_of_insert {m m' : NameMap} {path : ModulePath} {name : Text}
    (h : m'.names = m.names.insert path.text name) (key : ModulePath) :
    m'.name? key = if path = key then some name else m.name? key := by
  obtain ⟨p⟩ := path
  obtain ⟨k⟩ := key
  rw [name?, h, Table.find?_insert, name?]
  simp only [ModulePath.mk.injEq]

namespace Run

/-- Suggestions are accepted, and the names are kept in memory. -/
structure Unattended (r : Run) : Prop where
  respondent : r.respondent = .accepting
  store : ∃ saves, r.names.store = .memory r.names.names saves

/-- What a later state of a run has in addition to an earlier one: names for some modules, symbols
that were eliminated, and counts. -/
structure Adds (r : Run) (keys : List ModulePath) (symbols : List Text) (counts : Totals)
    (r' : Run) : Prop where
  options : r'.options = r.options
  respondent : r'.respondent = r.respondent
  nameOrSuggestion : r'.names.nameOrSuggestion = r.names.nameOrSuggestion
  named : ∀ key, (r'.names.name? key).isSome = true ↔
    (r.names.name? key).isSome = true ∨ key ∈ keys
  eliminated : ∀ symbol, r'.eliminated.contains symbol = true ↔
    r.eliminated.contains symbol = true ∨ symbol ∈ symbols
  /-- Every new name is counted and saved once. -/
  counted : ∃ n, r'.names.names.size = r.names.names.size + n ∧
    (∀ saves, r.names.store = .memory r.names.names saves →
      r'.names.store = .memory r'.names.names (saves + n)) ∧
    r'.totals = r.totals + counts + { modulesNamed := n }

namespace Adds

variable {r r' r'' : Run} {keys keys' : List ModulePath} {symbols symbols' : List Text}
  {counts counts' : Totals}

theorem unattended (h : r.Adds keys symbols counts r') (hr : r.Unattended) : r'.Unattended := by
  obtain ⟨n, -, hstore, -⟩ := h.counted
  obtain ⟨saves, hsaves⟩ := hr.store
  exact ⟨h.respondent.trans hr.respondent, saves + n, hstore saves hsaves⟩

theorem of_eq (hoptions : r'.options = r.options) (hrespondent : r'.respondent = r.respondent)
    (hnames : r'.names = r.names) (heliminated : r'.eliminated = r.eliminated)
    (htotals : r'.totals = r.totals + counts) : r.Adds [] [] counts r' where
  options := hoptions
  respondent := hrespondent
  nameOrSuggestion := by rw [hnames]
  named key := by simp [hnames]
  eliminated symbol := by simp [heliminated]
  counted := ⟨0, by rw [hnames]; rfl, fun saves hsaves => by rw [hnames]; exact hsaves, htotals⟩

theorem trans (h : r.Adds keys symbols counts r') (h' : r'.Adds keys' symbols' counts' r'') :
    r.Adds (keys ++ keys') (symbols ++ symbols') (counts + counts') r'' where
  options := h'.options.trans h.options
  respondent := h'.respondent.trans h.respondent
  nameOrSuggestion := h'.nameOrSuggestion.trans h.nameOrSuggestion
  named key := by rw [h'.named, h.named, or_assoc, List.mem_append]
  eliminated symbol := by rw [h'.eliminated, h.eliminated, or_assoc, List.mem_append]
  counted := by
    obtain ⟨n, hsize, hstore, htotals⟩ := h.counted
    obtain ⟨n', hsize', hstore', htotals'⟩ := h'.counted
    refine ⟨n + n', by rw [hsize', hsize, Nat.add_assoc], fun saves hsaves => ?_, ?_⟩
    · rw [hstore' _ (hstore saves hsaves), Nat.add_assoc]
    · have hnamed : ({ modulesNamed := n + n' } : Totals) =
          { modulesNamed := n } + { modulesNamed := n' } := rfl
      rw [htotals', htotals, hnamed]
      simp only [Totals.add_assoc]
      rw [Totals.add_left_comm { modulesNamed := n } counts']

end Adds

/-! One visit. -/

theorem ask_accepting {r : Run} (h : r.respondent = .accepting) (question : NameQuestion) :
    r.ask question = (.ok [], { r with asked := r.asked ++ [question] }) := by
  cases r
  subst h
  rfl

/-- A module goes by its name or by its suggestion, which it is then given. -/
theorem nameFor_unattended {r r' : Run} (hr : r.Unattended) {module : ModulePath}
    {d : Destructuring} {name : Text} (h : r.nameFor module d = (.ok name, r')) :
    name = r.names.nameOrSuggestion module.key ∧
      ((r' = r ∧ r.names.name? module.key = some name) ∨
        r.names.name? module.key = none ∧
          ∃ (m : NameMap) (asked : List NameQuestion),
            m.names = r.names.names.insert module.key.text name ∧
            (∀ saves, r.names.store = .memory r.names.names saves →
              m.store = .memory m.names (saves + 1)) ∧
            r' = { r with
              names := m
              asked := asked
              totals := r.totals + { modulesNamed := 1 } }) := by
  unfold NameMap.nameOrSuggestion
  cases nameFor_ends h with
  | had hname =>
    rw [hname]
    exact ⟨rfl, .inl ⟨rfl, rfl⟩⟩
  | named hnone hasked hsettled hassigned =>
    rw [ask_accepting hr.respondent] at hasked hassigned
    cases hasked
    have hsuggested := ModuleName.eq_of_settle_nil hsettled
    unfold assign at hassigned
    split at hassigned
    · cases hassigned
    · next names disk hassign =>
      cases hassigned
      obtain ⟨saves, hstore⟩ := hr.store
      obtain ⟨rfl, hnames, hsaved⟩ := NameMap.assign_memory hnone hstore hassign
      rw [hnone]
      refine ⟨hsuggested, .inr ⟨rfl, names, _, hnames, fun saves' hstore' => ?_, rfl⟩⟩
      rw [hstore] at hstore'
      cases hstore'
      exact hsaved

theorem nameFor_adds {r r' : Run} (hr : r.Unattended) {module : ModulePath} {d : Destructuring}
    {name : Text} (h : r.nameFor module d = (.ok name, r')) :
    r.Adds [module.key] [] {} r' := by
  obtain ⟨hname, ⟨rfl, hhas⟩ | ⟨hnone, m, asked, hnames, hstore, rfl⟩⟩ := nameFor_unattended hr h
  · refine ⟨rfl, rfl, rfl, fun key => ?_, by simp, 0, rfl, fun _ hsaves => hsaves, rfl⟩
    rw [List.mem_singleton, or_iff_left_of_imp]
    rintro rfl
    rw [hhas]
    rfl
  · have hfind := NameMap.name?_of_insert hnames
    refine ⟨rfl, rfl, funext fun key => ?_, fun key => ?_, by simp, 1, ?_, hstore, ?_⟩
    · rw [NameMap.nameOrSuggestion, hfind]
      split
      · next heq =>
        subst heq
        exact hname
      · rfl
    · rw [hfind, List.mem_singleton]
      split
      · next heq => simp [heq]
      · next hne => simp [Ne.symm hne]
    · dsimp only
      rw [hnames]
      exact Table.size_insert_of_find? name hnone
    · rfl

theorem credit_adds (r : Run) (module : ModulePath) (d : Destructuring) (name : Text) :
    r.Adds [] d.symbols { symbolsQualified := d.symbols.length } (r.credit module d name) where
  options := rfl
  respondent := rfl
  nameOrSuggestion := rfl
  named key := by simp [credit]
  eliminated symbol := Table.contains_foldl_insert r.eliminated d.symbols symbol
  counted := ⟨0, rfl, fun _ hsaves => hsaves, rfl⟩

/-- The collapses of some destructuring imports to what their modules are called. -/
def collapsesBy (call : ModulePath → Text) (destructured : List (ModulePath × Destructuring)) :
    List Collapse :=
  destructured.map fun e => ⟨e.2, call e.1.key⟩

theorem collapseAll_unattended {r r' : Run} (hr : r.Unattended) {path t t' : Text}
    {destructured : List (ModulePath × Destructuring)} {renamed : List (ModulePath × Text)}
    (h : r.collapseAll path destructured t = (.ok (renamed, t'), r')) :
    r.Adds (destructured.map fun e => e.1.key) (destructured.flatMap fun e => e.2.symbols)
        { symbolsQualified := (destructured.flatMap fun e => e.2.symbols).length } r' ∧
      r'.disk = r.disk ∧
      t' = Collapse.appliedAll (collapsesBy r.names.nameOrSuggestion destructured) t := by
  induction destructured generalizing r t renamed with
  | nil =>
    cases h
    exact ⟨.of_eq rfl rfl rfl rfl rfl, rfl, rfl⟩
  | cons e destructured ih =>
    obtain ⟨module, d⟩ := e
    obtain ⟨name, named, renamed', hnamed, -, hrest, -⟩ := collapseAll_cons h
    obtain ⟨hname, hcases⟩ := nameFor_unattended hr hnamed
    have hdisk : named.disk = r.disk := by
      rcases hcases with ⟨rfl, -⟩ | ⟨-, m, asked, -, -, rfl⟩
      · rfl
      · rfl
    have hfirst := (nameFor_adds hr hnamed).trans (named.credit_adds module d name)
    obtain ⟨hadds, hsame, ht'⟩ := ih (hfirst.unattended hr) hrest
    refine ⟨?_, hsame.trans hdisk, ?_⟩
    · have hall := hfirst.trans hadds
      rw [List.flatMap_cons, List.length_append]
      simpa [Totals.add_def] using hall
    · rw [ht', hfirst.nameOrSuggestion, hname]
      rfl

theorem writeText_rewrites {r r' : Run} {needed : Bool} {file t : Text}
    (h : r.writeText needed file t = .ok r')
    (hread : needed = false → r.disk.read file = .ok (.text t)) :
    r.Adds [] [] {} r' ∧ r.disk.Rewrites [(file, t)] r'.disk := by
  rcases writeText_eq_ok h with ⟨hfree, rfl⟩ | ⟨-, disk, hwrite, rfl⟩
  · exact ⟨.of_eq rfl rfl rfl rfl rfl, .of_read (hread hfree)⟩
  · exact ⟨.of_eq rfl rfl rfl rfl rfl, .of_write hwrite⟩

namespace Visited

variable (v : Visited) (call : ModulePath → Text)

def keys : List ModulePath := v.survey.destructured.map fun e => e.1.key

def symbols : List Text := v.survey.destructured.flatMap fun e => e.2.symbols

/-- The text that a visit leaves, from what the modules are called. -/
def textBy : Text :=
  Collapse.appliedAll (collapsesBy call v.survey.destructured) (v.survey.patched v.source)

/-- What a visit adds to the totals, other than modules named. -/
def countsBy : Totals where
  filesScanned := 1
  filesChanged := if v.textBy call ≠ v.source then 1 else 0
  patchesApplied := v.survey.fixes.length
  warnings := v.survey.warnings.size
  symbolsQualified := v.symbols.length

end Visited

/-- What a visit of a file would read and find, with plain imports under any names admitted. -/
def finds (r : Run) (root file : Text) : Option Visited :=
  (r.readText file).toOption.bind fun source =>
    (Survey.ofSource ⟨root, PathText.relativeTo root file⟩ r.disk.probe (fun _ => none)
      r.options.pathsOnly source).toOption.map fun survey => ⟨root, file, source, survey⟩

theorem file_of_finds {r : Run} {root file : Text} {v : Visited}
    (h : r.finds root file = some v) : v.file = file := by
  obtain ⟨source, -, hsurvey⟩ := Option.bind_eq_some_iff.mp h
  obtain ⟨survey, -, rfl⟩ := Option.map_eq_some_iff.mp hsurvey
  rfl

theorem finds_eq {r r' : Run} (hoptions : r'.options = r.options)
    (houtline : r.disk.SameOutline r'.disk) {file : Text}
    (hread : r'.disk.read file = r.disk.read file) (root : Text) :
    r'.finds root file = r.finds root file := by
  unfold finds readText
  rw [hoptions, houtline.probe_eq, hread]

theorem visitFile_unattended {r r' : Run} (hr : r.Unattended) {root file : Text} {visit : Visit}
    (h : r.visitFile root file = (.ok visit, r')) :
    ∃ v, r.finds root file = some v ∧
      r.Adds v.keys v.symbols (v.countsBy r.names.nameOrSuggestion) r' ∧
      r.disk.Rewrites [(file, v.textBy r.names.nameOrSuggestion)] r'.disk := by
  cases visitFile_ends h with
  | @done source t survey renamed patched last written hsource hsurvey hpatched hcollapsing
      hwritten =>
    let v : Visited := ⟨root, file, source, survey⟩
    have hfinds : r.finds root file = some v := by
      rw [finds, hsource]
      dsimp only [Except.toOption, Option.bind_some]
      rw [Survey.ofSource_unowned hsurvey]
      rfl
    -- up to the collapses
    have hsurveyed : r.Adds [] []
        { filesScanned := 1
          patchesApplied := survey.fixes.length
          warnings := survey.warnings.size }
        (r.surveyed (PathText.relativeTo root file) source survey) :=
      .of_eq rfl rfl rfl rfl rfl
    obtain ⟨hpatch, hpatchDisk⟩ := writeText_rewrites hpatched fun hneeded => by
      have hsame : survey.patched source = source := by simpa using hneeded
      rw [hsame]
      exact readText_eq_ok_iff.mp hsource
    have hremembered : patched.Adds [] [] {} (patched.remember survey.plain) :=
      .of_eq rfl rfl rfl rfl rfl
    have hbefore := (hsurveyed.trans hpatch).trans hremembered
    -- the collapses, by what the modules are called before the visit
    obtain ⟨hcollapsed, hsame, ht⟩ := collapseAll_unattended (hbefore.unattended hr) hcollapsing
    rw [hbefore.nameOrSuggestion] at ht
    have htext : t = v.textBy r.names.nameOrSuggestion := ht
    have hlastDisk : r.disk.Rewrites [(file, survey.patched source)] last.disk := by
      rw [hsame]
      exact hpatchDisk
    obtain ⟨hwrite, hwriteDisk⟩ := writeText_rewrites hwritten fun hneeded => by
      have hnil : survey.destructured = [] := by simpa using hneeded
      rw [hnil] at ht
      rw [ht]
      exact hlastDisk.read_self
    have hfinish : written.Adds [] [] { filesChanged := if t ≠ source then 1 else 0 }
        (written.finish (!survey.destructured.isEmpty) (t ≠ source)) :=
      .of_eq rfl rfl rfl rfl (by simp [finish, Totals.add_def])
    refine ⟨v, hfinds, ?_, ?_⟩
    · have hall := ((hbefore.trans hcollapsed).trans hwrite).trans hfinish
      rw [Visited.countsBy, ← htext]
      simpa [Totals.add_def, Visited.keys, Visited.symbols, v] using hall
    · rw [← htext]
      exact hlastDisk.again hwriteDisk

end Run
end Namespacer
