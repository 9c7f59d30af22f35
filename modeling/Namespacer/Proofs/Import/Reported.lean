import Namespacer.Proofs.Import.FullForm

/-! No import is lost silently. Every one is filed in the ledger of a survey, or a warning tells
that it is not. Apart from those about the forms of specifiers there are no other warnings. -/
namespace Namespacer

open Text

theorem ModulePath.isLocal_of_key {path : ModulePath} (h : path.key.isLocal = true) :
    path.isLocal = true := by
  cases hpath : before? indexFile path.text with
  | none =>
    have hkey : path.key = path := by simp only [key, hpath]
    rwa [hkey] at h
  | some dir =>
    have hkey : path.key = ⟨dir ++ ['/']⟩ := by simp only [key, hpath]
    rw [hkey] at h
    have htext : path.text = dir ++ indexFile := before?_eq_some_iff.mp hpath
    have hdir : dir ++ ['/'] <+: path.text := by
      rw [htext]
      exact (List.prefix_append_right_inj dir).mpr ⟨_, rfl⟩
    exact startsWith_iff.mpr ((startsWith_iff.mp h).trans hdir)

/-! What is said about an import that is not filed. -/

namespace Statement

/-- The warning about a local destructuring import with an entry that is no plain name, under the
path of its module. -/
def unsupported? (s : Statement) (site : Site) : Option (Text × Warning) :=
  match s.binding with
  | .name _ => none
  | .braces inner =>
    let path := site.resolve s.specifier
    if path.isLocal then
      ((Binding.symbolsOf inner).find? fun symbol => !isIdentifier symbol).map fun entry =>
        (path.text, .unsupported s.keyword.text s.binding.text s.literal entry)
    else none

/-- The warning about a statement that is missing from a ledger: it can never be filed, or another
one was filed in its place. -/
def complaint? (s : Statement) (site : Site) (ledger : Ledger) : Option (Text × Warning) :=
  match s.binding with
  | .name id =>
    let path := site.resolve s.specifier
    if ledger.plain.find? id = some path then none
    else some (path.text, .redeclaredName s.keyword.text id s.specifier)
  | .braces _ =>
    match s.filing? site with
    | none => s.unsupported? site
    | some e =>
      if ledger.destructured? e.1 = some e.2 then none
      else some (e.1.text, .redeclaredList s.keyword.text e.2)

variable {s : Statement} {site : Site}

theorem complaint?_of_name {id : Text} (h : s.binding = .name id) (ledger : Ledger) :
    s.complaint? site ledger =
      if ledger.plain.find? id = some (site.resolve s.specifier) then none
      else some ((site.resolve s.specifier).text,
        .redeclaredName s.keyword.text id s.specifier) := by
  rw [complaint?, h]

theorem complaint?_of_filing? {e : ModulePath × Destructuring} (h : s.filing? site = some e)
    (ledger : Ledger) :
    s.complaint? site ledger =
      if ledger.destructured? e.1 = some e.2 then none
      else some (e.1.text, .redeclaredList s.keyword.text e.2) := by
  unfold complaint?
  split
  · next id hid =>
    rw [filing?_of_name hid] at h
    contradiction
  · rw [h]

theorem complaint?_of_unfiled {inner : Text} (hinner : s.binding = .braces inner)
    (hnone : s.filing? site = none) (ledger : Ledger) :
    s.complaint? site ledger = s.unsupported? site := by
  rw [complaint?, hinner]
  dsimp only
  rw [hnone]

/-- What is said about a statement tells why it is missing. -/
theorem complaint?_cases {ledger : Ledger} {key : Text} {warning : Warning}
    (h : s.complaint? site ledger = some (key, warning)) :
    (∃ id, ledger.plain.find? id ≠ some (site.resolve s.specifier) ∧
      key = (site.resolve s.specifier).text ∧
      warning = .redeclaredName s.keyword.text id s.specifier) ∨
    (∃ e : ModulePath × Destructuring, ledger.destructured? e.1 ≠ some e.2 ∧ key = e.1.text ∧
      warning = .redeclaredList s.keyword.text e.2) ∨
    ∃ inner, ∃ entry ∈ Binding.symbolsOf inner, isIdentifier entry = false ∧
      warning = .unsupported s.keyword.text (Binding.braces inner).text s.literal entry := by
  cases hbinding : s.binding with
  | name id =>
    rw [complaint?_of_name hbinding, Option.ite_none_left_eq_some] at h
    cases h.2
    exact .inl ⟨id, h.1, rfl, rfl⟩
  | braces inner =>
    right
    cases hfiling : s.filing? site with
    | some e =>
      rw [complaint?_of_filing? hfiling, Option.ite_none_left_eq_some] at h
      cases h.2
      exact .inl ⟨e, h.1, rfl, rfl⟩
    | none =>
      right
      rw [complaint?_of_unfiled hbinding hfiling, unsupported?, hbinding] at h
      dsimp only at h
      rw [Option.ite_none_right_eq_some, Option.map_eq_some_iff] at h
      obtain ⟨-, entry, hentry, hsaid⟩ := h
      cases hsaid
      exact ⟨inner, entry, List.mem_of_find?_eq_some hentry,
        by simpa using List.find?_some hentry, rfl⟩

section Braces

variable {inner : Text} (hinner : s.binding = .braces inner)

include hinner

theorem filing?_of_isIdentifier (hlocal : (site.resolve s.specifier).isLocal = true)
    (hsome : Binding.symbolsOf inner ≠ [])
    (hall : ∀ symbol ∈ Binding.symbolsOf inner, isIdentifier symbol = true) :
    s.filing? site = some ((site.resolve s.specifier).key,
      ⟨s.literal, (Binding.braces inner).text, Binding.symbolsOf inner⟩) := by
  have hempty : (Binding.symbolsOf inner).isEmpty = false := List.isEmpty_eq_false_iff.mpr hsome
  rw [filing?, hinner]
  dsimp only
  rw [hlocal, hempty, List.all_eq_true.mpr hall]
  rfl

theorem complaint?_of_not_isIdentifier (hlocal : (site.resolve s.specifier).isLocal = true)
    (hbad : ¬ ∀ symbol ∈ Binding.symbolsOf inner, isIdentifier symbol = true) :
    ∃ entry ∈ Binding.symbolsOf inner, ∀ ledger : Ledger,
      s.complaint? site ledger = some ((site.resolve s.specifier).text,
        .unsupported s.keyword.text (Binding.braces inner).text s.literal entry) := by
  have hnone : s.filing? site = none := by
    rw [filing?, hinner]
    dsimp only
    rw [← List.all_eq_true, Bool.not_eq_true] at hbad
    rw [hbad, Bool.and_false, if_neg Bool.false_ne_true]
  cases hfind : (Binding.symbolsOf inner).find? fun symbol => !isIdentifier symbol with
  | none =>
    refine absurd (fun symbol hsymbol => ?_) hbad
    simpa using List.find?_eq_none.mp hfind symbol hsymbol
  | some entry =>
    refine ⟨entry, List.mem_of_find?_eq_some hfind, fun ledger => ?_⟩
    rw [complaint?_of_unfiled hinner hnone, unsupported?, hinner]
    dsimp only
    rw [hlocal, if_pos rfl, hfind, Option.map_some]

end Braces

end Statement

namespace Ledger

/-- What is filed stays. -/
structure Keeps (r r' : Ledger) : Prop where
  plain : ∀ name m, r.plain.find? name = some m → r'.plain.find? name = some m
  destructured : ∀ k d, r.destructured? k = some d → r'.destructured? k = some d

/-- A statement that can be filed is in the ledger, or another one is in its place. -/
structure Knows (r : Ledger) (site : Site) (s : Statement) : Prop where
  plain : ∀ id, s.binding = .name id → ∃ m, r.plain.find? id = some m
  destructured : ∀ e, s.filing? site = some e → ∃ d, r.destructured? e.1 = some d

variable {r r' : Ledger} {site : Site} {s : Statement}

theorem Knows.keeps (h : r.Knows site s) (hkeeps : r.Keeps r') : r'.Knows site s where
  plain id hid := by
    obtain ⟨m, hm⟩ := h.plain id hid
    exact ⟨m, hkeeps.plain id m hm⟩
  destructured e he := by
    obtain ⟨d, hd⟩ := h.destructured e he
    exact ⟨d, hkeeps.destructured e.1 d hd⟩

/-- What is said about a statement does not change any more. -/
theorem Knows.complaint?_eq (h : r.Knows site s) (hkeeps : r.Keeps r') :
    s.complaint? site r' = s.complaint? site r := by
  cases hbinding : s.binding with
  | name id =>
    obtain ⟨m, hm⟩ := h.plain id hbinding
    rw [Statement.complaint?_of_name hbinding, Statement.complaint?_of_name hbinding, hm,
      hkeeps.plain id m hm]
  | braces inner =>
    cases hfiling : s.filing? site with
    | none => rw [Statement.complaint?_of_unfiled hbinding hfiling,
        Statement.complaint?_of_unfiled hbinding hfiling]
    | some e =>
      obtain ⟨d, hd⟩ := h.destructured e hfiling
      rw [Statement.complaint?_of_filing? hfiling, Statement.complaint?_of_filing? hfiling, hd,
        hkeeps.destructured e.1 d hd]

/-! What entering adds to the warnings: nothing exactly if the ledger holds what is entered. -/

variable {key : Text} {warning : Warning}

theorem mem_enterPlain_iff (r : Ledger) (name : Text) (path : ModulePath)
    (keyword specifier : Text) :
    (key, warning) ∈ (r.enterPlain name path keyword specifier).2.warnings.toList ↔
      (key, warning) ∈ r.warnings.toList ∨
        (r.enterPlain name path keyword specifier).2.plain.find? name ≠ some path ∧
          key = path.text ∧ warning = .redeclaredName keyword name specifier := by
  unfold enterPlain
  cases hfirst : r.plain.find? name with
  | none => simp
  | some first =>
    dsimp only
    by_cases hsame : first = path
    · rw [if_pos hsame, hfirst, hsame]
      simp
    · rw [if_neg hsame, warn, Warnings.mem_toList_push_iff]
      simp [hfirst, hsame]

theorem destructured?_append (r : Ledger) (path : ModulePath) (d : Destructuring)
    (hfree : r.destructured? path = none) :
    { r with destructured := r.destructured ++ [(path, d)] }.destructured? path = some d := by
  unfold destructured? at hfree ⊢
  rw [Option.map_eq_none_iff] at hfree
  simp [List.find?_append, hfree]

theorem mem_enterDestructured_iff (r : Ledger) (path : ModulePath) (d : Destructuring)
    (keyword : Text) :
    (key, warning) ∈ (r.enterDestructured path d keyword).2.warnings.toList ↔
      (key, warning) ∈ r.warnings.toList ∨
        (r.enterDestructured path d keyword).2.destructured? path ≠ some d ∧
          key = path.text ∧ warning = .redeclaredList keyword d := by
  unfold enterDestructured
  cases hfirst : r.destructured? path with
  | none =>
    dsimp only
    rw [r.destructured?_append path d hfirst]
    simp
  | some first =>
    dsimp only
    by_cases hsame : first = d
    · rw [if_pos hsame, hfirst, hsame]
      simp
    · have hheld : (r.warn path.text (.redeclaredList keyword d)).destructured? path = some first :=
        hfirst
      rw [if_neg hsame, hheld, warn, Warnings.mem_toList_push_iff]
      simp [hsame]

end Ledger

namespace Survey

variable {site : Site} {probe : Probe} {owner? : Text → Option ModulePath}

/-! One statement. -/

section Add

variable {a b : Survey} {s : Statement} (h : a.add site probe owner? false s = .ok b)

include h

theorem add_keeps : a.Keeps b.toLedger where
  plain name m hm := by
    rw [add_plain h]
    split
    · rw [Table.find?_insertNew]
      split
      · next hnew =>
        rw [hnew.2, hm] at hnew
        exact absurd hnew.1 (by simp)
      · exact hm
    · exact hm
  destructured k d hd := by
    rw [add_destructured? h, hd, Option.some_or]

theorem add_knows : b.Knows site (s.completed site probe) where
  plain id hid := by
    have hname : s.binding = .name id := hid
    rw [add_plain h, hname]
    dsimp only
    rw [Table.find?_insertNew]
    split
    · exact ⟨_, rfl⟩
    · next hold =>
      rw [not_and_or, or_iff_left (not_not_intro rfl)] at hold
      exact Option.ne_none_iff_exists'.mp hold
  destructured e he := by
    rw [add_destructured? h, he]
    cases a.destructured? e.1 <;> simp

end Add

theorem addDestructuring_of_unfiled (a : Survey) {s : Statement} {inner : Text}
    (hinner : s.binding = .braces inner) (hnone : s.filing? site = none) :
    (a.addDestructuring site s.keyword inner s.quote s.specifier).warnings =
      match s.unsupported? site with
      | none => a.warnings
      | some e => a.warnings.push e.1 e.2 := by
  unfold addDestructuring Statement.unsupported?
  rw [hinner]
  dsimp only
  cases hlocal : (site.resolve s.specifier).isLocal with
  | false => simp
  | true =>
    cases hfind : (Binding.symbolsOf inner).find? fun symbol => !isIdentifier symbol with
    | some entry =>
      have hsome : Binding.symbolsOf inner ≠ [] :=
        List.ne_nil_of_mem (List.mem_of_find?_eq_some hfind)
      simp [hsome, Statement.literal, Ledger.warn]
    | none =>
      have hempty : Binding.symbolsOf inner = [] := by
        apply Decidable.byContradiction
        intro hsome
        have hfiling := Statement.filing?_of_isIdentifier hinner hlocal hsome fun symbol hsymbol =>
          by simpa using List.find?_eq_none.mp hfind symbol hsymbol
        rw [hnone] at hfiling
        contradiction
      simp [hempty]

section Warning

variable {key : Text} {warning : Warning}

theorem mem_addDestructuring_iff (a : Survey) {s : Statement} {inner : Text}
    (hinner : s.binding = .braces inner) :
    (key, warning) ∈
        (a.addDestructuring site s.keyword inner s.quote s.specifier).warnings.toList ↔
      (key, warning) ∈ a.warnings.toList ∨
        s.complaint? site (a.addDestructuring site s.keyword inner s.quote s.specifier).toLedger =
          some (key, warning) := by
  cases hfiling : s.filing? site with
  | none =>
    rw [Statement.complaint?_of_unfiled hinner hfiling,
      addDestructuring_of_unfiled a hinner hfiling]
    cases s.unsupported? site with
    | none => simp
    | some e =>
      dsimp only
      rw [Warnings.mem_toList_push_iff, Option.some.injEq, Prod.ext_iff]
      simp [eq_comm]
  | some e =>
    rcases a.addDestructuring_filing site hinner with ⟨hnone, -⟩ | ⟨e', hfiling', hentered⟩
    · rw [hfiling] at hnone
      contradiction
    · rw [hfiling] at hfiling'
      cases hfiling'
      rw [Statement.complaint?_of_filing? hfiling, hentered, Option.ite_none_left_eq_some,
        Option.some.injEq, Prod.ext_iff, Ledger.mem_enterDestructured_iff]
      exact or_congr Iff.rfl (and_congr Iff.rfl (and_congr eq_comm eq_comm))

variable (hform : warning.isOfForm = false)

include hform

theorem mem_checkForm_iff_of_entry (a : Survey) (site : Site) (probe : Probe) (s : Statement) :
    (key, warning) ∈ (a.checkForm site probe s).warnings.toList ↔
      (key, warning) ∈ a.warnings.toList := by
  rw [checkForm_toLedger, Ledger.noteForm_warnings]
  split
  · next noted hnoted =>
    have hne : warning ≠ noted := by
      rintro rfl
      rcases PathForm.eq_of_warning? hnoted with rfl | rfl <;> contradiction
    rw [Warnings.mem_toList_push_iff]
    simp [hne]
  · rfl

/-- A statement adds what is said about it, if it is not filed. -/
theorem mem_add_iff_of_entry {a b : Survey} {s : Statement}
    (h : a.add site probe owner? false s = .ok b) :
    (key, warning) ∈ b.warnings.toList ↔ (key, warning) ∈ a.warnings.toList ∨
      (s.completed site probe).complaint? site b.toLedger = some (key, warning) := by
  rw [← mem_checkForm_iff_of_entry hform a site probe s]
  unfold add at h
  dsimp only at h
  split at h
  · next id hid =>
    have hname : (s.completed site probe).binding = .name id := hid
    rw [addPlain_toLedger h, Ledger.mem_enterPlain_iff, Statement.complaint?_of_name hname,
      Option.ite_none_left_eq_some, Option.some.injEq, Prod.ext_iff]
    exact or_congr Iff.rfl (and_congr Iff.rfl (and_congr eq_comm eq_comm))
  · next inner hinner =>
    cases h
    exact mem_addDestructuring_iff (s := s.completed site probe) _ hinner

/-- The warnings that are not about forms are those about statements that are not filed in the
end. -/
theorem mem_ofSource_iff_of_entry {source : Text} {survey : Survey}
    (h : ofSource site probe owner? false source = .ok survey) :
    (key, warning) ∈ survey.warnings.toList ↔ ∃ s ∈ statementsOf source,
      (s.completed site probe).complaint? site survey.toLedger = some (key, warning) := by
  have hall := ofSource_induction (motive := fun a done =>
    (∀ i ∈ done, a.Knows site (i.toStatement.completed site probe)) ∧
    ((key, warning) ∈ a.warnings.toList ↔ ∃ i ∈ done,
      (i.toStatement.completed site probe).complaint? site a.toLedger = some (key, warning))) h
    ⟨by simp, iff_of_false (fun hmem => nomatch hmem) (by simp)⟩ fun a i b done ha hi => ?_
  · simpa [statementsOf] using hall.2
  · obtain ⟨hknown, hiff⟩ := ha
    -- a statement is known from its own step on, so what is said about it stays the same
    have hkeeps := add_keeps hi
    refine ⟨?_, ?_⟩
    · rw [List.forall_mem_append, List.forall_mem_singleton]
      exact ⟨fun j hj => (hknown j hj).keeps hkeeps, add_knows hi⟩
    · rw [mem_add_iff_of_entry hform hi, hiff]
      simp only [List.mem_append, List.mem_singleton, or_and_right, exists_or, exists_eq_left]
      refine or_congr (exists_congr fun j => and_congr_right fun hj => ?_) Iff.rfl
      rw [(hknown j hj).complaint?_eq hkeeps]

end Warning

section Kept

variable {source : Text} {survey : Survey} {s : Statement}
  (h : ofSource site probe owner? false source = .ok survey)

include h

theorem mem_redeclaredName_iff (hs : s ∈ statementsOf source) {id : Text}
    (hid : s.binding = .name id) :
    ((s.module site probe).text,
        .redeclaredName s.keyword.text id (site.completed probe s.specifier)) ∈
          survey.warnings.toList ↔
      survey.plain.find? id ≠ some (s.module site probe) := by
  rw [mem_ofSource_iff_of_entry rfl h]
  constructor
  · rintro ⟨u, -, hsaid⟩
    rcases Statement.complaint?_cases hsaid with ⟨_, hmissing, htext, hsame⟩ | ⟨_, -, -, hsame⟩ |
      ⟨_, _, -, -, hsame⟩
    · have hpath : s.module site probe = u.module site probe := congrArg ModulePath.mk htext
      rw [Warning.redeclaredName.injEq] at hsame
      rwa [hpath, hsame.2.1]
    · contradiction
    · contradiction
  · intro hmissing
    have hname : (s.completed site probe).binding = .name id := hid
    refine ⟨s, hs, ?_⟩
    rw [Statement.complaint?_of_name hname]
    exact if_neg hmissing

theorem mem_redeclaredList_iff (hs : s ∈ statementsOf source) {e : ModulePath × Destructuring}
    (hfiling : (s.completed site probe).filing? site = some e) :
    (e.1.text, .redeclaredList s.keyword.text e.2) ∈ survey.warnings.toList ↔
      survey.destructured? e.1 ≠ some e.2 := by
  rw [mem_ofSource_iff_of_entry rfl h]
  constructor
  · rintro ⟨u, -, hsaid⟩
    rcases Statement.complaint?_cases hsaid with ⟨_, -, -, hsame⟩ | ⟨e', hmissing, htext, hsame⟩ |
      ⟨_, _, -, -, hsame⟩
    · contradiction
    · have hpath : e.1 = e'.1 := congrArg ModulePath.mk htext
      rw [Warning.redeclaredList.injEq] at hsame
      rwa [hpath, hsame.2]
    · contradiction
  · intro hmissing
    refine ⟨s, hs, ?_⟩
    rw [Statement.complaint?_of_filing? hfiling]
    exact if_neg hmissing

theorem isIdentifier_of_kept {path : ModulePath} {d : Destructuring}
    (hkept : survey.destructured? path = some d) :
    ∀ symbol ∈ d.symbols, isIdentifier symbol = true :=
  (ofSource_destructured h (path, d) ((ofSource_destructured? h (path, d)).mpr hkept)).1.symbols

/-- Braces that a warning calls unsupported hold an entry that is no plain name. -/
theorem exists_of_unsupported {key keyword inner literal entry : Text}
    (hmem : (key, .unsupported keyword (Binding.braces inner).text literal entry) ∈
      survey.warnings.toList) :
    ∃ symbol ∈ Binding.symbolsOf inner, isIdentifier symbol = false := by
  obtain ⟨u, -, hsaid⟩ := (mem_ofSource_iff_of_entry rfl h).mp hmem
  rcases Statement.complaint?_cases hsaid with ⟨_, -, -, hsame⟩ | ⟨_, -, -, hsame⟩ |
    ⟨inner', symbol, hsymbol, hplain, hsame⟩
  · contradiction
  · contradiction
  · rw [Warning.unsupported.injEq] at hsame
    have hinner : inner = inner' := by simpa [Binding.text] using hsame.2.1
    rw [hinner]
    exact ⟨symbol, hsymbol, hplain⟩

/-- An import is filed, as it will read once completed, exactly if there is no warning about it:
about a braced list under the path of its module, that an entry is no plain name, or under the key
of the module, that there was another list before; about a plain name, that it stands for another
module. -/
theorem ofSource_kept_iff (hs : s ∈ statementsOf source) :
    let path := s.module site probe
    let specifier := site.completed probe s.specifier
    (∀ inner, s.binding = .braces inner → Binding.symbolsOf inner ≠ [] →
      path.key.isLocal = true →
      let literal := s.quote.wrap specifier
      let record : Destructuring := ⟨literal, (Binding.braces inner).text, Binding.symbolsOf inner⟩
      (survey.destructured? path.key = some record ↔
        ¬ ((∃ entry ∈ record.symbols, (path.text,
            .unsupported s.keyword.text record.binding literal entry) ∈ survey.warnings.toList) ∨
          (path.key.text, .redeclaredList s.keyword.text record) ∈ survey.warnings.toList))) ∧
    ∀ id, s.binding = .name id →
      (survey.plain.find? id = some path ↔
        (path.text, .redeclaredName s.keyword.text id specifier) ∉ survey.warnings.toList) := by
  intro path specifier
  constructor
  · intro inner hinner hsome hlocal literal record
    have hbraces : (s.completed site probe).binding = .braces inner := hinner
    have hpath : path.isLocal = true := ModulePath.isLocal_of_key hlocal
    by_cases hall : ∀ symbol ∈ Binding.symbolsOf inner, isIdentifier symbol = true
    · -- the list can be filed, and then it is at most its key that is taken
      have hsupported : ¬ ∃ entry ∈ record.symbols, (path.text,
          .unsupported s.keyword.text record.binding literal entry) ∈ survey.warnings.toList := by
        rintro ⟨entry, -, hmem⟩
        obtain ⟨symbol, hsymbol, hbad⟩ := exists_of_unsupported h hmem
        rw [hall symbol hsymbol] at hbad
        contradiction
      have hlist : (path.key.text, .redeclaredList s.keyword.text record) ∈
          survey.warnings.toList ↔ survey.destructured? path.key ≠ some record :=
        mem_redeclaredList_iff h hs (Statement.filing?_of_isIdentifier hbraces hpath hsome hall)
      rw [or_iff_right hsupported, hlist]
      exact Decidable.not_not.symm
    · obtain ⟨entry, hentry, hsaid⟩ :=
        Statement.complaint?_of_not_isIdentifier hbraces hpath hall
      have hwarned := (mem_ofSource_iff_of_entry rfl h).mpr ⟨s, hs, hsaid survey.toLedger⟩
      exact iff_of_false (fun hkept => hall (isIdentifier_of_kept h hkept))
        (not_not_intro (.inl ⟨entry, hentry, hwarned⟩))
  · intro id hid
    rw [mem_redeclaredName_iff h hs hid]
    exact Decidable.not_not.symm

end Kept

/-- Of two lists for one module and two modules for one name the first is filed, and there is a
warning about the second. -/
theorem ofSource_kept_iff_twice :
    let source := ("let { a } = require('./b');var { c } = require('./b');" ++
      "let g = require('./h');let g = require('./i.js')").toList
    let result := ofSource ⟨"/p".toList, "lib/a.js".toList⟩ ⟨fun _ => false, fun _ => true⟩
      (fun _ => none) false source
    let list : Destructuring := ⟨"'./b.js'".toList, "{ c }".toList, ["c".toList]⟩
    ∃ survey, result = .ok survey ∧
      survey.destructured =
        [(⟨"./lib/b.js".toList⟩, ⟨"'./b.js'".toList, "{ a }".toList, ["a".toList]⟩)] ∧
      ((∃ entry ∈ list.symbols, ("./lib/b.js".toList,
          .unsupported "var".toList list.binding list.literal entry) ∈ survey.warnings.toList) ∨
        ("./lib/b.js".toList, .redeclaredList "var".toList list) ∈ survey.warnings.toList) ∧
      survey.plain.find? "g".toList = some ⟨"./lib/h.js".toList⟩ ∧
      ("./lib/i.js".toList, .redeclaredName "let".toList "g".toList "./i.js".toList) ∈
        survey.warnings.toList := by
  intro source result list
  have hfiled : result.toOption.map (fun survey =>
      (survey.destructured, survey.plain.find? "g".toList)) =
      some ([(⟨"./lib/b.js".toList⟩, ⟨"'./b.js'".toList, "{ a }".toList, ["a".toList]⟩)],
        some ⟨"./lib/h.js".toList⟩) := by decide +kernel
  cases hresult : result with
  | error f =>
    rw [hresult] at hfiled
    contradiction
  | ok survey =>
    rw [hresult] at hfiled
    obtain ⟨hlists, hname⟩ := Prod.mk.inj (Option.some.inj hfiled)
    refine ⟨survey, rfl, hlists, ?_, hname, ?_⟩
    · have hsecond : (⟨.varKw, .braces " c ".toList, .single, "./b".toList⟩ : Statement) ∈
          statementsOf source := by decide +kernel
      have hother : survey.destructured? ⟨"./lib/b.js".toList⟩ ≠ some list := by
        rw [Ledger.destructured?, hlists]
        decide +kernel
      refine Decidable.not_not.mp fun hnone => hother ?_
      exact ((ofSource_kept_iff hresult hsecond).1 _ rfl (by decide) (by decide +kernel)).mpr hnone
    · have hlast : (⟨.letKw, .name "g".toList, .single, "./i.js".toList⟩ : Statement) ∈
          statementsOf source := by decide +kernel
      have hother : survey.plain.find? "g".toList ≠ some ⟨"./lib/i.js".toList⟩ := by
        rw [hname]
        decide +kernel
      refine Decidable.not_not.mp fun hnone => hother ?_
      exact ((ofSource_kept_iff hresult hlast).2 _ rfl).mpr hnone

end Survey
end Namespacer
