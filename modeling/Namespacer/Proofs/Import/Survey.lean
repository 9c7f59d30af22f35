import Namespacer.Import.Survey
import Namespacer.Proofs.Import.Braces

/-! What a survey files: each statement adds a plain import, or a destructuring import that can be
collapsed, or neither. -/
namespace Namespacer

open Text

/-! The pieces of a text. -/

theorem mem_splitBy (sep : Char → Bool) {t : Text} {c : Char} (h : c ∈ t) :
    sep c = true ∨ ∃ piece ∈ splitBy sep t, c ∈ piece := by
  induction t with
  | nil => contradiction
  | cons a t ih =>
    rw [splitBy]
    split
    · next ha =>
      rcases List.mem_cons.mp h with rfl | h
      · exact .inl ha
      · refine (ih h).imp_right ?_
        rintro ⟨piece, hpiece, hc⟩
        exact ⟨piece, List.mem_cons_of_mem _ hpiece, hc⟩
    · next ha =>
      split
      · next hnil =>
        rcases List.mem_cons.mp h with rfl | h
        · exact .inr ⟨[c], List.mem_cons_self, List.mem_cons_self⟩
        · exact .inl (by simpa [hnil] using ih h)
      · next piece pieces hpieces =>
        rcases List.mem_cons.mp h with rfl | h
        · exact .inr ⟨c :: piece, List.mem_cons_self, List.mem_cons_self⟩
        · refine (ih h).imp_right ?_
          rintro ⟨piece', hpiece', hc⟩
          rw [hpieces] at hpiece'
          rcases List.mem_cons.mp hpiece' with rfl | hpiece'
          · exact ⟨a :: piece', List.mem_cons_self, List.mem_cons_of_mem _ hc⟩
          · exact ⟨piece', List.mem_cons_of_mem _ hpiece', hc⟩

theorem mem_runs (sep : Char → Bool) {t : Text} {c : Char} (h : c ∈ t) (hsep : sep c = false) :
    ∃ piece ∈ runs sep t, c ∈ piece := by
  rcases mem_splitBy sep h with hc | ⟨piece, hpiece, hc⟩
  · rw [hsep] at hc
    contradiction
  · refine ⟨piece, List.mem_filter.mpr ⟨hpiece, ?_⟩, hc⟩
    cases piece with
    | nil => contradiction
    | cons a piece => rfl

theorem Destructuring.proper_of_symbolsOf {inner literal : Text}
    (h : ∀ symbol ∈ Binding.symbolsOf inner, isIdentifier symbol = true) :
    Destructuring.Proper ⟨literal, (Binding.braces inner).text, Binding.symbolsOf inner⟩ := by
  refine ⟨⟨inner, rfl, fun a ha => ?_⟩, h⟩
  cases hsep : (fun c => c == ',' || isBlank c) a with
  | true =>
    dsimp only at hsep
    rw [isListChar, Bool.or_assoc, hsep, Bool.or_true]
  | false =>
    obtain ⟨symbol, hsymbol, hmem⟩ := mem_runs (fun c => c == ',' || isBlank c) ha hsep
    exact isListChar_of_isNameChar (isNameChar_of_isIdentifier (h symbol hsymbol) a hmem)

/-! One statement. -/

theorem ModulePath.key_key (path : ModulePath) : path.key.key = path.key := by
  cases hpath : before? indexFile path.text with
  | none =>
    have hkey : path.key = path := by simp only [key, hpath]
    rw [hkey, hkey]
  | some dir =>
    have hkey : path.key = ⟨dir ++ ['/']⟩ := by simp only [key, hpath]
    have hnone : before? indexFile (dir ++ ['/']) = none := by
      rw [Option.eq_none_iff_forall_ne_some]
      intro rest hrest
      have hlast := congrArg List.getLast? (before?_eq_some_iff.mp hrest)
      simp [indexFile] at hlast
    rw [hkey]
    simp only [key, hnone]

/-- The module that a statement requires, by its specifier as it will read once completed. -/
def Statement.module (s : Statement) (site : Site) (probe : Probe) : ModulePath :=
  site.resolve (site.completed probe s.specifier)

namespace Survey

theorem checkForm_eq (a : Survey) (site : Site) (probe : Probe) (s : Statement) :
    (a.checkForm site probe s).plain = a.plain ∧
      (a.checkForm site probe s).destructured = a.destructured := by
  have hledger : (a.toLedger.noteForm site probe s.specifier).plain = a.plain ∧
      (a.toLedger.noteForm site probe s.specifier).destructured = a.destructured := by
    unfold Ledger.noteForm
    dsimp only
    split <;> exact ⟨rfl, rfl⟩
  unfold checkForm
  dsimp only
  split
  · exact hledger
  · unfold addFix
    split <;> exact hledger

theorem enterPlain_plain (r : Ledger) (name : Text) (path : ModulePath) (keyword specifier : Text) :
    (r.enterPlain name path keyword specifier).2.plain = r.plain.insertNew name path ∧
      (r.enterPlain name path keyword specifier).2.destructured = r.destructured := by
  unfold Ledger.enterPlain Table.insertNew Table.contains
  split
  · next hnone => simp [hnone]
  · next first hfirst =>
    rw [hfirst]
    dsimp only [Option.isSome_some, if_true]
    split <;> exact ⟨rfl, rfl⟩

theorem addDestructuring_cases (a : Survey) (site : Site) (keyword : Keyword) (inner : Text)
    (quote : Quote) (specifier : Text) :
    (a.addDestructuring site keyword inner quote specifier).plain = a.plain ∧
      ((a.addDestructuring site keyword inner quote specifier).destructured = a.destructured ∨
        ∃ d : Destructuring, d.Proper ∧ d.binding = (Binding.braces inner).text ∧
          (a.addDestructuring site keyword inner quote specifier).destructured =
            a.destructured ++ [((site.resolve specifier).key, d)]) := by
  unfold addDestructuring
  dsimp only
  split
  · exact ⟨rfl, .inl rfl⟩
  · split
    · exact ⟨rfl, .inl rfl⟩
    · next hfind =>
      have hsymbols : ∀ symbol ∈ Binding.symbolsOf inner, isIdentifier symbol = true := by
        intro symbol hsymbol
        simpa using List.find?_eq_none.mp hfind symbol hsymbol
      unfold Ledger.enterDestructured
      split
      · exact ⟨rfl, .inr ⟨_, Destructuring.proper_of_symbolsOf hsymbols, rfl, rfl⟩⟩
      · dsimp only
        split <;> exact ⟨rfl, .inl rfl⟩

/-- What one more statement files: a plain import, a destructuring import, or nothing. -/
theorem add_cases {site : Site} {probe : Probe} {owner? : Text → Option ModulePath}
    {pathsOnly : Bool} {a b : Survey} {s : Statement}
    (h : a.add site probe owner? pathsOnly s = .ok b) :
    (∃ id, s.binding = .name id ∧
      (∀ owner, owner? id = some owner → owner = (s.module site probe).key) ∧
      b.plain = a.plain.insertNew id (s.module site probe) ∧ b.destructured = a.destructured) ∨
    (∃ inner, s.binding = .braces inner ∧ b.plain = a.plain ∧
      (b.destructured = a.destructured ∨
        ∃ d : Destructuring, d.Proper ∧ d.binding = s.binding.text ∧
          b.destructured = a.destructured ++ [((s.module site probe).key, d)])) := by
  obtain ⟨hplain, hdestructured⟩ := checkForm_eq a site probe s
  unfold add at h
  dsimp only at h
  split at h
  · next id hid =>
    left
    unfold addPlain at h
    dsimp only at h
    split at h
    · contradiction
    · next hnone =>
      cases h
      obtain ⟨hp, hd⟩ := enterPlain_plain (a.checkForm site probe s).toLedger id
        (s.module site probe) s.keyword.text (site.completed probe s.specifier)
      refine ⟨id, hid, ?_, by rw [← hplain]; exact hp, by rw [← hdestructured]; exact hd⟩
      intro owner howner
      rw [howner, Option.filter_eq_none_iff] at hnone
      have howns : owner = (site.resolve (site.completed probe s.specifier)).key := by
        simpa using hnone owner rfl
      exact howns
  · next inner hinner =>
    right
    cases h
    refine ⟨inner, hinner, ?_⟩
    rw [← hplain, ← hdestructured, hinner]
    split
    · exact ⟨rfl, .inl rfl⟩
    · exact addDestructuring_cases _ site s.keyword inner s.quote _

/-! All statements of a source text. -/

/-- The plain imports among some statements, with the modules that they require. -/
def plainImports (site : Site) (probe : Probe) (imports : List Import) :
    List (Text × ModulePath) :=
  imports.filterMap fun i =>
    match i.binding with
    | .name id => some (id, i.module site probe)
    | .braces _ => none

section Source

variable {site : Site} {probe : Probe} {owner? : Text → Option ModulePath} {pathsOnly : Bool}

theorem foldlM_add {motive : Survey → List Import → Prop} {a b : Survey}
    {imports : List Import}
    (hadd : ∀ a i b done, motive a done → a.add site probe owner? pathsOnly i.toStatement = .ok b →
      motive b (done ++ [i]))
    (h : imports.foldlM (fun a i => a.add site probe owner? pathsOnly i.toStatement) a = .ok b)
    (done : List Import) (ha : motive a done) : motive b (done ++ imports) := by
  induction imports generalizing a done with
  | nil =>
    cases h
    simpa using ha
  | cons i imports ih =>
    rw [List.foldlM_cons] at h
    cases hi : a.add site probe owner? pathsOnly i.toStatement with
    | error f =>
      rw [hi] at h
      contradiction
    | ok a' =>
      rw [hi] at h
      simpa using ih h (done ++ [i]) (hadd a i a' done ha hi)

/-- What holds of an empty survey and is kept by every statement holds in the end. -/
theorem ofSource_induction {motive : Survey → List Import → Prop} {source : Text} {survey : Survey}
    (h : ofSource site probe owner? pathsOnly source = .ok survey) (hempty : motive {} [])
    (hadd : ∀ a i b done, motive a done → a.add site probe owner? pathsOnly i.toStatement = .ok b →
      motive b (done ++ [i])) : motive survey (importsOf source) :=
  foldlM_add hadd h [] hempty

theorem plainImports_append_name {i : Import} {id : Text} (hid : i.binding = .name id)
    (done : List Import) :
    plainImports site probe (done ++ [i]) =
      plainImports site probe done ++ [(id, i.module site probe)] := by
  simp [plainImports, hid]

theorem plainImports_append_braces {i : Import} {inner : Text} (hinner : i.binding = .braces inner)
    (done : List Import) :
    plainImports site probe (done ++ [i]) = plainImports site probe done := by
  simp [plainImports, hinner]

variable {source : Text} {survey : Survey}
  (h : ofSource site probe owner? pathsOnly source = .ok survey)

include h

/-- Every destructuring import that is filed can be collapsed, and it is filed under a key. -/
theorem ofSource_destructured : ∀ e ∈ survey.destructured, e.2.Proper ∧ e.1.key = e.1 := by
  refine ofSource_induction
    (motive := fun a _ => ∀ e ∈ a.destructured, e.2.Proper ∧ e.1.key = e.1) h (by simp)
    fun a i b _ ha hi => ?_
  rcases add_cases hi with ⟨-, -, -, -, hb⟩ | ⟨-, -, -, hb | ⟨d, hd, -, hb⟩⟩
  · rwa [hb]
  · rwa [hb]
  · rw [hb]
    intro e he
    rcases List.mem_append.mp he with he | he
    · exact ha e he
    · rw [List.mem_singleton.mp he]
      exact ⟨hd, ModulePath.key_key _⟩

/-- No plain import takes a name that was given to another module. -/
theorem ofSource_owner? : ∀ e ∈ plainImports site probe (importsOf source), ∀ owner,
    owner? e.1 = some owner → owner = e.2.key := by
  refine ofSource_induction (motive := fun _ done => ∀ e ∈ plainImports site probe done, ∀ owner,
    owner? e.1 = some owner → owner = e.2.key) h (by simp [plainImports]) fun a i b done ha hi => ?_
  rcases add_cases hi with ⟨id, hid, howner, -, -⟩ | ⟨inner, hinner, -, -⟩
  · rw [plainImports_append_name hid]
    intro e he
    rcases List.mem_append.mp he with he | he
    · exact ha e he
    · rw [List.mem_singleton.mp he]
      exact howner
  · rwa [plainImports_append_braces hinner]

/-- A name that is plainly imported is filed with one of its modules. -/
theorem ofSource_plain (name : Text) :
    (∀ m, survey.plain.find? name = some m →
      (name, m) ∈ plainImports site probe (importsOf source)) ∧
    ∀ m, (name, m) ∈ plainImports site probe (importsOf source) →
      (survey.plain.find? name).isSome = true := by
  refine ofSource_induction (motive := fun a done =>
    (∀ m, a.plain.find? name = some m → (name, m) ∈ plainImports site probe done) ∧
      ∀ m, (name, m) ∈ plainImports site probe done → (a.plain.find? name).isSome = true) h
    (by simp [plainImports]) fun a i b done ha hi => ?_
  rcases add_cases hi with ⟨id, hid, -, hb, -⟩ | ⟨inner, hinner, hb, -⟩
  · rw [plainImports_append_name hid, hb, Table.find?_insertNew]
    split
    · next hnew =>
      obtain ⟨-, rfl⟩ := hnew
      refine ⟨fun m hm => ?_, fun _ _ => rfl⟩
      cases hm
      simp
    · next hold =>
      refine ⟨fun m hm => List.mem_append_left _ (ha.1 m hm), fun m hm => ?_⟩
      rcases List.mem_append.mp hm with hm | hm
      · exact ha.2 m hm
      · cases List.mem_singleton.mp hm
        rw [Option.isSome_iff_ne_none]
        exact fun hnone => hold ⟨hnone, rfl⟩
  · rwa [plainImports_append_braces hinner, hb]

end Source
end Survey
end Namespacer
