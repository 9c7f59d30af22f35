import Namespacer.Proofs.Import.Rest

/-! Surveying a text again once its specifiers are completed. The second survey finds the same
imports and has nothing left to complete. It files them as the first one did, with the same warnings
unless quoted text in braces was completed as well. -/
namespace Namespacer

open Text

theorem Ledger.noteForm_completed (ledger : Ledger) (site : Site) (probe : Probe)
    (specifier : Text) :
    ledger.noteForm site probe (site.completed probe specifier) =
      ledger.noteForm site probe specifier := by
  unfold Site.completed
  split
  · next ending hform =>
    unfold noteForm
    rw [Site.formOf_append, hform]
  · rfl

namespace Survey

variable {site : Site} {probe : Probe} {owner? : Text → Option ModulePath} {pathsOnly : Bool}

/-! What a statement adds to the ledger. -/

theorem checkForm_toLedger (a : Survey) (s : Statement) :
    (a.checkForm site probe s).toLedger = a.toLedger.noteForm site probe s.specifier := by
  unfold checkForm
  dsimp only
  split
  · rfl
  · unfold addFix
    split <;> rfl

theorem checkForm_fixes {s : Statement} (h : s.fix? site probe = none) (a : Survey) :
    (a.checkForm site probe s).fixes = a.fixes := by
  unfold checkForm
  rw [h]

theorem addDestructuring_toLedger {a a' : Survey} (h : a'.toLedger = a.toLedger) (site : Site)
    (keyword : Keyword) (inner : Text) (quote : Quote) (specifier : Text) :
    (a'.addDestructuring site keyword inner quote specifier).toLedger =
      (a.addDestructuring site keyword inner quote specifier).toLedger := by
  unfold addDestructuring
  dsimp only
  split
  · exact h
  · split <;> simp only [h]

theorem addPlain_toLedger {a b : Survey} {keyword : Keyword} {name specifier : Text}
    (h : a.addPlain site owner? keyword name specifier = .ok b) :
    b.toLedger =
      (a.toLedger.enterPlain name (site.resolve specifier) keyword.text specifier).2 := by
  unfold addPlain at h
  dsimp only at h
  split at h
  · contradiction
  · cases h
    rfl

theorem add_plain {a b : Survey} {s : Statement}
    (h : a.add site probe owner? pathsOnly s = .ok b) :
    b.plain = match s.binding with
      | .name id => a.plain.insertNew id (s.module site probe)
      | .braces _ => a.plain := by
  rcases add_cases h with ⟨id, hid, -, hb, -⟩ | ⟨inner, hinner, hb, -⟩
  · rw [hid, hb]
  · rw [hinner, hb]

section Revised

variable {a a' b b' : Survey} {s s' : Statement}
  (hrevised : s.Revised (fun _ => site.completed probe) s')
  (h : a.add site probe owner? pathsOnly s = .ok b)
  (h' : a'.add site probe owner? pathsOnly s' = .ok b')

include hrevised

theorem fix?_of_revised : s'.fix? site probe = none := by
  rw [Statement.fix?_eq_none_iff, hrevised.specifier]
  exact site.formOf_completed probe s.specifier

include h h'

/-- A statement and the same with its specifier completed add the same to a ledger. -/
theorem add_toLedger (hledger : a'.toLedger = a.toLedger)
    (hbinding : pathsOnly = true ∨ s'.binding = s.binding) : b'.toLedger = b.toLedger := by
  have hchecked : (a'.checkForm site probe s').toLedger = (a.checkForm site probe s).toLedger := by
    rw [checkForm_toLedger, checkForm_toLedger, hledger, hrevised.specifier,
      Ledger.noteForm_completed]
  have hspecifier : site.completed probe s'.specifier = site.completed probe s.specifier := by
    rw [hrevised.specifier, Site.completed_completed]
  unfold add at h h'
  dsimp only at h h'
  rw [hspecifier, hrevised.keyword, hrevised.quote] at h'
  cases hname : s.binding with
  | name id =>
    have hname' : s'.binding = .name id := by
      obtain hsame | ⟨inner, -, hinner, -⟩ := hrevised.binding
      · rw [hsame, hname]
      · rw [hname] at hinner
        contradiction
    rw [hname] at h
    rw [hname'] at h'
    rw [addPlain_toLedger h, addPlain_toLedger h', hchecked]
  | braces inner =>
    rw [hname] at h
    cases h
    cases pathsOnly with
    | true =>
      obtain ⟨inner', hinner'⟩ : ∃ inner', s'.binding = .braces inner' := by
        obtain hsame | ⟨-, inner', -, hinner', -⟩ := hrevised.binding
        · exact ⟨inner, hsame.trans hname⟩
        · exact ⟨inner', hinner'⟩
      rw [hinner'] at h'
      cases h'
      exact hchecked
    | false =>
      rw [hbinding.resolve_left Bool.false_ne_true, hname] at h'
      cases h'
      exact addDestructuring_toLedger hchecked site s.keyword inner s.quote _

theorem add_plain_of_revised (hplain : a'.plain = a.plain) : b'.plain = b.plain := by
  rw [add_plain h, add_plain h', hplain, Statement.module_of_revised hrevised]
  obtain hsame | ⟨inner, inner', hinner, hinner', -⟩ := hrevised.binding
  · rw [hsame]
  · rw [hinner, hinner']

theorem add_destructured_of_revised (hdestructured : a'.destructured = a.destructured) :
    b'.destructured = b.destructured := by
  have hfiling : (s'.completed site probe).filing? site =
      (s.completed site probe).filing? site := by
    rw [Statement.completed_of_fix? (fix?_of_revised hrevised),
      Statement.filing?_of_revised hrevised]
  have hfind : a'.destructured? = a.destructured? := by
    funext k
    rw [Ledger.destructured?, hdestructured, Ledger.destructured?]
  rw [add_destructured h, add_destructured h', hfiling, hfind, hdestructured]

end Revised

/-! Whole surveys. -/

/-- A survey and a later one of the same imports that has nothing to complete. The warnings of both
are the same if `alike` holds. -/
structure Repeats (alike : Prop) (a a' : Survey) : Prop where
  fixes : a'.fixes = []
  plain : a'.plain = a.plain
  destructured : a'.destructured = a.destructured
  warnings : alike → a'.warnings = a.warnings

namespace Repeats

theorem start (alike : Prop) : Repeats alike {} {} := ⟨rfl, rfl, rfl, fun _ => rfl⟩

variable {alike : Prop} {a a' b : Survey}

theorem add (hrepeats : Repeats alike a a') {s s' : Statement}
    (hrevised : s.Revised (fun _ => site.completed probe) s')
    (halike : alike → pathsOnly = true ∨ s'.binding = s.binding)
    (h : a.add site probe owner? pathsOnly s = .ok b) :
    ∃ b', a'.add site probe owner? pathsOnly s' = .ok b' ∧ Repeats alike b b' := by
  have hadmitted := (add_ok_iff a pathsOnly).mp ⟨b, h⟩
  obtain ⟨b', h'⟩ := (add_ok_iff a' pathsOnly).mpr
    ((Statement.admitted_of_revised hrevised owner?).mpr hadmitted)
  have hfixes : b'.fixes = [] := by
    rw [add_fixes h', checkForm_fixes (fix?_of_revised hrevised), hrepeats.fixes]
  refine ⟨b', h', hfixes, add_plain_of_revised hrevised h h' hrepeats.plain,
    add_destructured_of_revised hrevised h h' hrepeats.destructured, fun ha => ?_⟩
  have hledger : a'.toLedger = a.toLedger := by
    change Ledger.mk a'.destructured a'.plain a'.warnings =
      Ledger.mk a.destructured a.plain a.warnings
    rw [hrepeats.destructured, hrepeats.plain, hrepeats.warnings ha]
  rw [add_toLedger hrevised h h' hledger (halike ha)]

theorem foldlM (hrepeats : Repeats alike a a') {ss ss' : List Statement}
    (hss : List.Forall₂ (fun s s' => s.Revised (fun _ => site.completed probe) s' ∧
      (alike → pathsOnly = true ∨ s'.binding = s.binding)) ss ss')
    (h : ss.foldlM (Survey.add site probe owner? pathsOnly) a = .ok b) :
    ∃ b', ss'.foldlM (Survey.add site probe owner? pathsOnly) a' = .ok b' ∧
      Repeats alike b b' := by
  induction hss generalizing a a' with
  | nil =>
    cases h
    exact ⟨a', rfl, hrepeats⟩
  | @cons s s' ss ss' hs _ ih =>
    rw [List.foldlM_cons] at h ⊢
    cases hadd : Survey.add site probe owner? pathsOnly a s with
    | error f =>
      rw [hadd] at h
      contradiction
    | ok c =>
      rw [hadd] at h
      obtain ⟨c', hadd', hrepeats'⟩ := hrepeats.add hs.1 hs.2 hadd
      rw [hadd']
      exact ih hrepeats' h

end Repeats

theorem ofSource_eq_foldlM (source : Text) : ofSource site probe owner? pathsOnly source =
    (statementsOf source).foldlM (add site probe owner? pathsOnly) {} := by
  rw [ofSource, statementsOf, List.foldlM_map]

/-- Once the specifiers of a text are completed, a survey has nothing left to complete, and it finds
the same plain and destructuring imports. Its warnings are the same too, if braces are passed over
or no quotes stand in them. -/
theorem ofSource_patched {source : Text} {survey : Survey}
    (hspecifiers : ∀ i ∈ importsOf source, ∀ c ∈ i.specifier, isQuote c = false ∧ c ≠ '(')
    (h : ofSource site probe owner? pathsOnly source = .ok survey) :
    ∃ again, ofSource site probe owner? pathsOnly (Patch.applyAll survey.patches source) =
        .ok again ∧
      again.fixes = [] ∧ again.plain = survey.plain ∧ again.destructured = survey.destructured ∧
      ((pathsOnly = true ∨ ∀ i ∈ importsOf source, ∀ inner, i.binding = .braces inner →
          ∀ c ∈ inner, isQuote c = false) → again.warnings = survey.warnings) := by
  have hplain : ∀ s ∈ statementsOf source, IsPlain s.specifier := by
    intro s hs
    obtain ⟨i, hi, rfl⟩ := List.mem_map.mp hs
    refine isPlain_of_all (List.all_eq_true.mpr fun c hc => ?_)
    simpa using hspecifiers i hi c hc
  have hss := forall₂_of_mem (statementsOf_applyAll h hplain) (S := fun s s' =>
    s.Revised (fun _ => site.completed probe) s' ∧
      ((pathsOnly = true ∨ ∀ i ∈ importsOf source, ∀ inner, i.binding = .braces inner →
        ∀ c ∈ inner, isQuote c = false) → pathsOnly = true ∨ s'.binding = s.binding)) ?_
  · rw [ofSource_eq_foldlM] at h
    obtain ⟨again, hagain, hrepeats⟩ := (Repeats.start _).foldlM hss h
    exact ⟨again, by rw [ofSource_eq_foldlM, hagain], hrepeats.fixes, hrepeats.plain,
      hrepeats.destructured, hrepeats.warnings⟩
  · intro s hs s' _ hrevised
    refine ⟨hrevised, Or.imp_right fun hbraces => ?_⟩
    obtain ⟨i, hi, rfl⟩ := List.mem_map.mp hs
    obtain hsame | ⟨inner, -, hinner, -, ⟨c, hc, hquote⟩, -⟩ := hrevised.binding
    · exact hsame
    · rw [hbraces i hi inner hinner c hc] at hquote
      contradiction

/-- One specifier is completed, one leads nowhere and takes a name in use: nothing is left to
complete, and both warnings stay. -/
theorem ofSource_patched_redeclared :
    let site : Site := ⟨[], "a.js".toList⟩
    let probe : Probe := ⟨fun _ => false, fun path => path == "m.js".toList⟩
    let source := "let X = require('./m');\nlet X = require('./n');".toList
    ∃ survey again, ofSource site probe (fun _ => none) true source = .ok survey ∧
      survey.fixes.length = 1 ∧ survey.warnings.size = 2 ∧
      ofSource site probe (fun _ => none) true (Patch.applyAll survey.patches source) =
        .ok again ∧ again.fixes = [] ∧ again.warnings = survey.warnings := by
  intro site probe source
  have hcounts : (ofSource site probe (fun _ => none) true source).toOption.map
      (fun survey => (survey.fixes.length, survey.warnings.size)) = some (1, 2) := by
    decide +kernel
  have hall : ((importsOf source).all fun i =>
      i.specifier.all fun c => !isQuote c && c != '(') = true := by decide +kernel
  have hspecifiers : ∀ i ∈ importsOf source, ∀ c ∈ i.specifier, isQuote c = false ∧ c ≠ '(' := by
    intro i hi c hc
    have hchar := List.all_eq_true.mp (List.all_eq_true.mp hall i hi) c hc
    simpa using hchar
  cases hsurvey : ofSource site probe (fun _ => none) true source with
  | error f =>
    rw [hsurvey] at hcounts
    contradiction
  | ok survey =>
    rw [hsurvey] at hcounts
    obtain ⟨hfixes, hwarnings⟩ := Prod.mk.inj (Option.some.inj hcounts)
    obtain ⟨again, hagain, hnone, -, -, hsame⟩ := ofSource_patched hspecifiers hsurvey
    exact ⟨survey, again, rfl, hfixes, hwarnings, hagain, hnone, hsame (.inl rfl)⟩

end Survey
end Namespacer
