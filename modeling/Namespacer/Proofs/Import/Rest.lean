import Namespacer.Proofs.Import.Completed
import Namespacer.Proofs.Name.OneToOne

/-! Imports at rest: those that call for nothing any more. A survey of such imports finds no
specifier to complete and no braces to collapse. What imports have become once their specifiers are
completed and the filed braces collapsed is at rest, unless a name is taken or braces were
dropped. -/
namespace Namespacer

open Text

namespace Statement

/-- The statement with its specifier completed. -/
def completed (s : Statement) (site : Site) (probe : Probe) : Statement :=
  { s with specifier := site.completed probe s.specifier }

/-- How a destructuring import is filed, if it can be collapsed. -/
def filing? (s : Statement) (site : Site) : Option (ModulePath × Destructuring) :=
  match s.binding with
  | .name _ => none
  | .braces inner =>
    let path := site.resolve s.specifier
    let symbols := Binding.symbolsOf inner
    if path.isLocal && !symbols.isEmpty && symbols.all isIdentifier then
      some (path.key, ⟨s.literal, s.binding.text, symbols⟩)
    else none

/-- Whether the statement does not bind the name of another module. -/
def Admitted (s : Statement) (site : Site) (probe : Probe) (owner? : Text → Option ModulePath) :
    Prop :=
  ∀ id, s.binding = .name id → ∀ owner, owner? id = some owner → owner = (s.module site probe).key

instance (s : Statement) (site : Site) (probe : Probe) (owner? : Text → Option ModulePath) :
    Decidable (s.Admitted site probe owner?) :=
  match hbinding : s.binding with
  | .name id => decidable_of_iff (∀ owner ∈ owner? id, owner = (s.module site probe).key) (by
      simp [Admitted, hbinding])
  | .braces _ => isTrue (by simp [Admitted, hbinding])

/-- A statement that a run leaves as it is. -/
structure AtRest (s : Statement) (site : Site) (probe : Probe)
    (owner? : Text → Option ModulePath) (pathsOnly : Bool) : Prop where
  full : s.fix? site probe = none
  admitted : s.Admitted site probe owner?
  notFiled : pathsOnly = false → s.filing? site = none

theorem fix?_eq_none_iff {s : Statement} {site : Site} {probe : Probe} :
    s.fix? site probe = none ↔ ∀ ending, site.formOf probe s.specifier ≠ .lacks ending := by
  unfold fix?
  split
  · next ending h => simp [h]
  · next h => simpa using h

theorem completed_specifier {s : Statement} {site : Site} {probe : Probe}
    (h : s.fix? site probe = none) : site.completed probe s.specifier = s.specifier := by
  rw [fix?_eq_none_iff] at h
  unfold Site.completed
  split
  · next ending hform => exact absurd hform (h ending)
  · rfl

theorem completed_of_fix? {s : Statement} {site : Site} {probe : Probe}
    (h : s.fix? site probe = none) : s.completed site probe = s := by
  rw [completed, completed_specifier h]

end Statement

namespace Survey

variable {site : Site} {probe : Probe} {owner? : Text → Option ModulePath} {pathsOnly : Bool}

/-! One statement. -/

/-- A destructuring import that can be collapsed is entered; any other causes a warning at most. -/
theorem addDestructuring_filing (a : Survey) (site : Site) {s : Statement} {inner : Text}
    (hinner : s.binding = .braces inner) :
    let b := a.addDestructuring site s.keyword inner s.quote s.specifier
    (s.filing? site = none ∧ (b = a ∨ ∃ key keyword binding literal entry,
      b = { a with toLedger := a.warn key (.unsupported keyword binding literal entry) })) ∨
    ∃ e, s.filing? site = some e ∧
      b = { a with toLedger := (a.enterDestructured e.1 e.2 s.keyword.text).2 } := by
  unfold addDestructuring Statement.filing?
  rw [hinner]
  dsimp only
  cases hlocal : (site.resolve s.specifier).isLocal with
  | false => exact .inl ⟨by simp, .inl (by simp)⟩
  | true =>
    cases hempty : (Binding.symbolsOf inner).isEmpty with
    | true => exact .inl ⟨by simp, .inl (by simp)⟩
    | false =>
      cases hfind : (Binding.symbolsOf inner).find? fun symbol => !isIdentifier symbol with
      | some entry =>
        have hnot : (Binding.symbolsOf inner).all isIdentifier = false := by
          rw [List.all_eq_false]
          exact ⟨entry, List.mem_of_find?_eq_some hfind, by simpa using List.find?_some hfind⟩
        exact .inl ⟨by simp [hnot], .inr ⟨(site.resolve s.specifier).text, s.keyword.text,
          (Binding.braces inner).text, s.literal, entry, rfl⟩⟩
      | none =>
        have hall : (Binding.symbolsOf inner).all isIdentifier = true := by
          simpa using hfind
        exact .inr ⟨((site.resolve s.specifier).key,
          ⟨s.literal, (Binding.braces inner).text, Binding.symbolsOf inner⟩), by simp [hall], rfl⟩

theorem addDestructuring_destructured (a : Survey) (site : Site) {s : Statement} {inner : Text}
    (hinner : s.binding = .braces inner) :
    (a.addDestructuring site s.keyword inner s.quote s.specifier).destructured =
      match s.filing? site with
      | none => a.destructured
      | some e =>
        if (a.destructured? e.1).isSome then a.destructured else a.destructured ++ [e] := by
  rcases a.addDestructuring_filing site hinner with
    ⟨hnone, hsame | ⟨_, _, _, _, _, hwarned⟩⟩ | ⟨e, hfiling, hentered⟩
  · rw [hnone, hsame]
  · rw [hnone, hwarned]
    rfl
  · rw [hfiling, hentered]
    dsimp only
    unfold Ledger.enterDestructured
    cases hfirst : a.destructured? e.1 with
    | none => simp
    | some first =>
      dsimp only
      split <;> rfl

/-- A destructuring import is filed unless one of its module is filed already. -/
theorem add_destructured {a b : Survey} {s : Statement}
    (h : a.add site probe owner? pathsOnly s = .ok b) :
    b.destructured = if pathsOnly then a.destructured else
      match (s.completed site probe).filing? site with
      | none => a.destructured
      | some e =>
        if (a.destructured? e.1).isSome then a.destructured else a.destructured ++ [e] := by
  obtain ⟨-, hsame⟩ := checkForm_eq a site probe s
  have hfind (k : ModulePath) : (a.checkForm site probe s).destructured? k = a.destructured? k := by
    rw [Ledger.destructured?, hsame, Ledger.destructured?]
  cases hbinding : s.binding with
  | name id =>
    have hnone : (s.completed site probe).filing? site = none := by
      simp [Statement.filing?, Statement.completed, hbinding]
    rcases add_cases h with ⟨-, -, -, -, hb⟩ | ⟨inner, hinner, -⟩
    · rw [hb, hnone]
      simp
    · rw [hbinding] at hinner
      contradiction
  | braces inner =>
    unfold add at h
    rw [hbinding] at h
    cases h
    cases pathsOnly with
    | true => exact hsame
    | false =>
      have hbraces : (s.completed site probe).binding = .braces inner := hbinding
      have hfiled := (a.checkForm site probe s).addDestructuring_destructured site hbraces
      rw [hsame] at hfiled
      simp only [hfind] at hfiled
      exact hfiled

theorem add_ok_iff (a : Survey) (pathsOnly : Bool) {s : Statement} :
    (∃ b, a.add site probe owner? pathsOnly s = .ok b) ↔ s.Admitted site probe owner? := by
  constructor
  · rintro ⟨b, hb⟩ id hid
    rcases add_cases hb with ⟨id', hid', howner, -⟩ | ⟨inner, hinner, -⟩
    · rw [hid] at hid'
      cases hid'
      exact howner
    · rw [hid] at hinner
      contradiction
  · intro hadmitted
    unfold add
    dsimp only
    split
    · next id hid =>
      have hnone : (owner? id).filter (· ≠ (s.module site probe).key) = none := by
        rw [Option.filter_eq_none_iff]
        intro owner howner
        simpa using hadmitted id hid owner howner
      unfold Statement.module at hnone
      unfold addPlain
      dsimp only
      rw [hnone]
      exact ⟨_, rfl⟩
    · exact ⟨_, rfl⟩

/-! All statements of a source text. -/

theorem ofSource_ok_iff (pathsOnly : Bool) {source : Text} :
    (∃ survey, ofSource site probe owner? pathsOnly source = .ok survey) ↔
      ∀ s ∈ statementsOf source, s.Admitted site probe owner? := by
  unfold ofSource statementsOf
  generalize ({} : Survey) = a
  induction importsOf source generalizing a with
  | nil => simp [pure, Except.pure]
  | cons i imports ih =>
    rw [List.map_cons, List.forall_mem_cons, ← add_ok_iff a pathsOnly, List.foldlM_cons]
    cases hi : a.add site probe owner? pathsOnly i.toStatement with
    | error f => simp [bind, Except.bind]
    | ok b =>
      rw [← ih b]
      simp [bind, Except.bind]

section Source

variable {source : Text} {survey : Survey}
  (h : ofSource site probe owner? pathsOnly source = .ok survey)

include h

theorem destructured_of_pathsOnly (honly : pathsOnly = true) : survey.destructured = [] := by
  refine ofSource_induction (motive := fun a _ => a.destructured = []) h rfl fun a i b _ ha hi => ?_
  rw [add_destructured hi, if_pos honly, ha]

/-- What is filed comes from a statement. -/
theorem exists_filing?_of_mem {e : ModulePath × Destructuring} (he : e ∈ survey.destructured) :
    ∃ s ∈ statementsOf source, (s.completed site probe).filing? site = some e := by
  have hall := ofSource_induction (motive := fun a done => ∀ e ∈ a.destructured,
    ∃ i ∈ done, (i.toStatement.completed site probe).filing? site = some e) h (by simp)
    fun a i b done ha hi => ?_
  · obtain ⟨i, hi, hfiling⟩ := hall e he
    exact ⟨i.toStatement, List.mem_map_of_mem hi, hfiling⟩
  · intro e he
    have hold (he : e ∈ a.destructured) : ∃ j ∈ done ++ [i],
        (j.toStatement.completed site probe).filing? site = some e := by
      obtain ⟨j, hj, hfiling⟩ := ha e he
      exact ⟨j, List.mem_append_left _ hj, hfiling⟩
    rw [add_destructured hi] at he
    split at he
    · exact hold he
    · split at he
      · exact hold he
      · next e' hfiling =>
        split at he
        · exact hold he
        · rcases List.mem_append.mp he with he | he
          · exact hold he
          · rw [List.mem_singleton.mp he]
            exact ⟨i, by simp, hfiling⟩

/-- For every statement that can be filed one of its module is. -/
theorem exists_mem_of_filing? (hnames : pathsOnly = false) {s : Statement}
    (hs : s ∈ statementsOf source) {k : ModulePath} {d : Destructuring}
    (hfiling : (s.completed site probe).filing? site = some (k, d)) :
    ∃ d', (k, d') ∈ survey.destructured := by
  have hall := ofSource_induction (motive := fun a done => ∀ i ∈ done, ∀ k d,
    (i.toStatement.completed site probe).filing? site = some (k, d) →
      ∃ d', (k, d') ∈ a.destructured) h (by simp) fun a i b done ha hi => ?_
  · obtain ⟨i, hi, rfl⟩ := List.mem_map.mp hs
    exact hall i hi k d hfiling
  · rw [add_destructured hi, if_neg (by simp [hnames])]
    intro j hj k d hfiling
    rcases List.mem_append.mp hj with hj | hj
    · obtain ⟨d', hd'⟩ := ha j hj k d hfiling
      split
      · exact ⟨d', hd'⟩
      · split
        · exact ⟨d', hd'⟩
        · exact ⟨d', List.mem_append_left _ hd'⟩
    · rw [List.mem_singleton.mp hj] at hfiling
      rw [hfiling]
      dsimp only
      split
      · next hsome =>
        obtain ⟨d', hd'⟩ := Option.isSome_iff_exists.mp hsome
        unfold Ledger.destructured? at hd'
        obtain ⟨e, he, rfl⟩ := Option.map_eq_some_iff.mp hd'
        have hkey : e.1 = k := by simpa using List.find?_some he
        exact ⟨e.2, hkey ▸ List.mem_of_find?_eq_some he⟩
      · exact ⟨d, by simp⟩

end Source

/-- A survey calls for nothing exactly if all imports are at rest. -/
theorem ofSource_idle_iff {source : Text} :
    (∃ survey, ofSource site probe owner? pathsOnly source = .ok survey ∧ survey.fixes = [] ∧
        survey.destructured = []) ↔
      ∀ s ∈ statementsOf source, s.AtRest site probe owner? pathsOnly := by
  constructor
  · rintro ⟨survey, hsurvey, hfixes, hdestructured⟩ s hs
    have hfull : s.fix? site probe = none := by
      rw [Option.eq_none_iff_forall_ne_some]
      intro f hf
      have hmem := (ofSource_fixes hsurvey f).mpr ⟨s, hs, hf⟩
      rw [hfixes] at hmem
      contradiction
    refine ⟨hfull, (ofSource_ok_iff pathsOnly).mp ⟨survey, hsurvey⟩ s hs, fun hnames => ?_⟩
    rw [Option.eq_none_iff_forall_ne_some]
    rintro ⟨k, d⟩ hfiling
    rw [← Statement.completed_of_fix? hfull] at hfiling
    obtain ⟨d', hd'⟩ := exists_mem_of_filing? hsurvey hnames hs hfiling
    rw [hdestructured] at hd'
    contradiction
  · intro hrest
    obtain ⟨survey, hsurvey⟩ := (ofSource_ok_iff pathsOnly).mpr
      fun s hs => (hrest s hs).admitted
    refine ⟨survey, hsurvey, List.eq_nil_iff_forall_not_mem.mpr fun f hf => ?_,
      List.eq_nil_iff_forall_not_mem.mpr fun e he => ?_⟩
    · obtain ⟨s, hs, hfix⟩ := (ofSource_fixes hsurvey f).mp hf
      rw [(hrest s hs).full] at hfix
      contradiction
    · cases hnames : pathsOnly with
      | true =>
        rw [destructured_of_pathsOnly hsurvey hnames] at he
        contradiction
      | false =>
        obtain ⟨s, hs, hfiling⟩ := exists_filing?_of_mem hsurvey he
        rw [Statement.completed_of_fix? (hrest s hs).full, (hrest s hs).notFiled hnames] at hfiling
        contradiction

end Survey

/-! What has become of an import. -/

/-- Braces with a quote in them have an entry that is no plain name. -/
theorem all_symbolsOf_eq_false {inner : Text} (h : ∃ c ∈ inner, isQuote c = true) :
    (Binding.symbolsOf inner).all isIdentifier = false := by
  obtain ⟨c, hc, hquote⟩ := h
  obtain ⟨hname, hblank⟩ := of_isQuote hquote
  have hsep : (c == ',' || isBlank c) = false := by
    rw [hblank, Bool.or_false, beq_eq_false_iff_ne]
    rintro rfl
    contradiction
  obtain ⟨symbol, hsymbol, hmem⟩ := mem_runs (fun c => c == ',' || isBlank c) hc hsep
  rw [List.all_eq_false]
  refine ⟨symbol, hsymbol, fun hid => ?_⟩
  rw [isNameChar_of_isIdentifier hid c hmem] at hname
  contradiction

namespace Statement

/-- The statement with the name of its module in place of the braces, if these are filed. -/
def collapsed (s : Statement) (site : Site) (filed : List (ModulePath × Destructuring))
    (m : NameMap) : Statement :=
  match s.filing? site with
  | some e => if e ∈ filed then { s with binding := .name ((m.name? e.1).getD []) } else s
  | none => s

theorem filing?_of_name {s : Statement} {site : Site} {id : Text} (h : s.binding = .name id) :
    s.filing? site = none := by
  simp [filing?, h]

theorem specifier_collapsed (s : Statement) (site : Site)
    (filed : List (ModulePath × Destructuring)) (m : NameMap) :
    (s.collapsed site filed m).specifier = s.specifier := by
  unfold collapsed
  split
  · split <;> rfl
  · rfl

theorem collapsed_of_mem {s : Statement} {site : Site} {filed : List (ModulePath × Destructuring)}
    {m : NameMap} {e : ModulePath × Destructuring} {name : Text} (h : s.filing? site = some e)
    (he : e ∈ filed) (hname : m.name? e.1 = some name) :
    s.collapsed site filed m = { s with binding := .name name } := by
  rw [collapsed, h]
  simp [he, hname]

theorem collapsed_of_not_filed {s : Statement} {site : Site}
    {filed : List (ModulePath × Destructuring)} {m : NameMap}
    (h : ∀ e ∈ filed, s.filing? site ≠ some e) : s.collapsed site filed m = s := by
  unfold collapsed
  split
  · next e he => exact if_neg fun hmem => h e hmem he
  · rfl

/-- Braces that are left are those of the statement, and they are not filed. -/
theorem of_filing?_collapsed {s : Statement} {site : Site}
    {filed : List (ModulePath × Destructuring)} {m : NameMap} {e : ModulePath × Destructuring}
    (h : (s.collapsed site filed m).filing? site = some e) :
    s.filing? site = some e ∧ e ∉ filed := by
  unfold collapsed at h
  split at h
  · next e' he' =>
    split at h
    · rw [filing?_of_name rfl] at h
      contradiction
    · next hnot =>
      rw [he', Option.some.injEq] at h
      exact ⟨h ▸ he', h ▸ hnot⟩
  · next hnone =>
    rw [hnone] at h
    contradiction

/-- What is filed of a statement, and what it takes for that. -/
theorem of_filing? {s : Statement} {site : Site} {e : ModulePath × Destructuring}
    (h : s.filing? site = some e) :
    ∃ inner, s.binding = .braces inner ∧ (site.resolve s.specifier).isLocal = true ∧
      Binding.symbolsOf inner ≠ [] ∧
      e = ((site.resolve s.specifier).key,
        ⟨s.literal, s.binding.text, Binding.symbolsOf inner⟩) := by
  unfold filing? at h
  split at h
  · contradiction
  · next inner hinner =>
    dsimp only at h
    split at h
    · next hcan =>
      simp only [Bool.and_eq_true, Bool.not_eq_true', List.isEmpty_eq_false_iff] at hcan
      cases h
      exact ⟨inner, hinner, hcan.1.1, hcan.1.2, rfl⟩
    · contradiction

section Filing

variable {s : Statement} {site : Site} {e : ModulePath × Destructuring}
  (h : s.filing? site = some e)

include h

theorem isLocal_of_filing? : (site.resolve s.specifier).isLocal = true := by
  obtain ⟨inner, -, hlocal, -⟩ := of_filing? h
  exact hlocal

theorem symbols_ne_nil_of_filing? : e.2.symbols ≠ [] := by
  obtain ⟨inner, -, -, hne, rfl⟩ := of_filing? h
  exact hne

theorem key_of_filing? : e.1 = (site.resolve s.specifier).key := by
  obtain ⟨inner, -, -, -, rfl⟩ := of_filing? h
  rfl

theorem binding_of_filing? : s.binding.text = e.2.binding := by
  obtain ⟨inner, -, -, -, rfl⟩ := of_filing? h
  rfl

end Filing

section Revised

variable {s s' : Statement} {site : Site} {probe : Probe}
  (h : s.Revised (fun _ => site.completed probe) s')

include h

theorem filing?_of_revised : s'.filing? site = (s.completed site probe).filing? site := by
  obtain hsame | ⟨inner, inner', hinner, hinner', hquote, hquote'⟩ := h.binding
  · have heq : s' = s.completed site probe := by
      obtain ⟨keyword, binding, quote, specifier⟩ := s'
      simp only [completed, mk.injEq]
      exact ⟨h.keyword, hsame, h.quote, h.specifier⟩
    rw [heq]
  · have hnone {t : Statement} {inner : Text} (hbinding : t.binding = .braces inner)
        (hquote : ∃ c ∈ inner, isQuote c = true) : t.filing? site = none := by
      unfold filing?
      rw [hbinding]
      simp [all_symbolsOf_eq_false hquote]
    rw [hnone hinner' hquote', hnone (t := s.completed site probe) hinner hquote]

theorem module_of_revised : s'.module site probe = s.module site probe := by
  rw [module, h.specifier, Site.completed_completed, module]

theorem admitted_of_revised (owner? : Text → Option ModulePath) :
    s'.Admitted site probe owner? ↔ s.Admitted site probe owner? := by
  unfold Admitted
  rw [module_of_revised h]
  obtain hsame | ⟨inner, inner', hinner, hinner', -⟩ := h.binding
  · rw [hsame]
  · simp [hinner, hinner']

theorem fix?_collapsed (filed : List (ModulePath × Destructuring)) (m : NameMap) :
    (s'.collapsed site filed m).fix? site probe = none := by
  rw [fix?_eq_none_iff, specifier_collapsed, h.specifier]
  exact site.formOf_completed probe _

/-- What has become of a statement is at rest exactly if the statement binds no other module's name
and its braces, if they could be collapsed, are filed. -/
theorem atRest_collapsed_iff {m : NameMap} (hm : m.OneToOne) (pathsOnly : Bool)
    {filed : List (ModulePath × Destructuring)}
    (hnamed : ∀ e ∈ filed, ∃ name, m.name? e.1 = some name) :
    (s'.collapsed site filed m).AtRest site probe m.owner? pathsOnly ↔
      s.Admitted site probe m.owner? ∧
        (pathsOnly = false → ∀ e, (s.completed site probe).filing? site = some e → e ∈ filed) := by
  rw [← filing?_of_revised h, ← admitted_of_revised h]
  have hfull := fix?_collapsed h filed m
  cases hfiling : s'.filing? site with
  | none =>
    have hsame : s'.collapsed site filed m = s' := collapsed_of_not_filed (by simp [hfiling])
    rw [hsame] at hfull ⊢
    exact ⟨fun hrest => ⟨hrest.admitted, by simp⟩, fun hkept => ⟨hfull, hkept.1, fun _ => hfiling⟩⟩
  | some e =>
    have hadmitted : s'.Admitted site probe m.owner? := by
      intro id hid
      rw [filing?_of_name hid] at hfiling
      contradiction
    by_cases he : e ∈ filed
    · refine ⟨fun _ => ⟨hadmitted, fun _ e' he' => by cases he'; exact he⟩, fun _ => ?_⟩
      obtain ⟨name, hname⟩ := hnamed e he
      rw [collapsed_of_mem hfiling he hname] at hfull ⊢
      refine ⟨hfull, ?_, fun _ => filing?_of_name rfl⟩
      -- the name belongs to the module that the braces were filed under
      intro id hid owner howner
      cases hid
      rw [(hm e.1 name).mp hname, Option.some.injEq] at howner
      rw [← howner, key_of_filing? hfiling, module, completed_specifier hfull]
    · have hsame : s'.collapsed site filed m = s' := by
        refine collapsed_of_not_filed fun e' he' hsome => ?_
        rw [hfiling, Option.some.injEq] at hsome
        exact he (hsome ▸ he')
      rw [hsame] at hfull ⊢
      constructor
      · intro hrest
        refine ⟨hadmitted, fun hnames => ?_⟩
        have hnone := hrest.notFiled hnames
        rw [hfiling] at hnone
        contradiction
      · rintro ⟨-, hkept⟩
        exact ⟨hfull, hadmitted, fun hnames => absurd (hkept hnames e rfl) he⟩

end Revised
end Statement
end Namespacer
