import Namespacer.Proofs.Import.Rest

/-! Destructuring imports that are dropped. A module is filed with the first of its imports; one
that is written otherwise is left out, and there is a warning exactly if this happens. -/
namespace Namespacer

open Text

def Warning.isOfDropped : Warning → Bool
  | redeclaredList _ _ => true
  | _ => false

namespace Warnings

/-- Whether there is a warning about a destructuring import that was dropped. -/
def tellOfDropped (w : Warnings) : Bool := w.toList.any fun e => e.2.isOfDropped

theorem mem_toList_iff {w : Warnings} {key : Text} {warning : Warning} :
    (key, warning) ∈ w.toList ↔ ∃ list, w.find? key = some list ∧ warning ∈ list := by
  unfold toList
  rw [List.mem_flatMap]
  constructor
  · rintro ⟨⟨key', list⟩, hmem, hwarning⟩
    obtain ⟨warning', hlist, heq⟩ := List.mem_map.mp hwarning
    cases heq
    exact ⟨list, Table.mem_entries_iff.mp hmem, hlist⟩
  · rintro ⟨list, hfind, hlist⟩
    exact ⟨(key, list), Table.mem_entries_iff.mpr hfind, List.mem_map.mpr ⟨warning, hlist, rfl⟩⟩

theorem mem_toList_push_iff {w : Warnings} {key key' : Text} {warning warning' : Warning} :
    (key', warning') ∈ (w.push key warning).toList ↔
      (key', warning') ∈ w.toList ∨ key' = key ∧ warning' = warning := by
  rw [mem_toList_iff, mem_toList_iff, find?, push, Table.find?_insert]
  by_cases hkey : key = key'
  · subst hkey
    rw [if_pos rfl, find?]
    cases w.byKey.find? key <;> simp
  · simp [hkey, Ne.symm hkey, find?]

theorem tellOfDropped_push (w : Warnings) (key : Text) (warning : Warning) :
    (w.push key warning).tellOfDropped = (w.tellOfDropped || warning.isOfDropped) := by
  rw [Bool.eq_iff_iff, Bool.or_eq_true, tellOfDropped, tellOfDropped, List.any_eq_true,
    List.any_eq_true]
  constructor
  · rintro ⟨⟨key', warning'⟩, hmem, hdropped⟩
    rcases mem_toList_push_iff.mp hmem with hmem | ⟨-, rfl⟩
    · exact .inl ⟨_, hmem, hdropped⟩
    · exact .inr hdropped
  · rintro (⟨⟨key', warning'⟩, hmem, hdropped⟩ | hdropped)
    · exact ⟨_, mem_toList_push_iff.mpr (.inl hmem), hdropped⟩
    · exact ⟨(key, warning), mem_toList_push_iff.mpr (.inr ⟨rfl, rfl⟩), hdropped⟩

end Warnings

/-- Whether a module is filed with another import than the one to be filed. -/
def Ledger.drops (r : Ledger) (e : ModulePath × Destructuring) : Bool :=
  (r.destructured? e.1).any (· ≠ e.2)

namespace Survey

variable {site : Site} {probe : Probe} {owner? : Text → Option ModulePath} {pathsOnly : Bool}

theorem checkForm_tellOfDropped (a : Survey) (site : Site) (probe : Probe) (s : Statement) :
    (a.checkForm site probe s).warnings.tellOfDropped = a.warnings.tellOfDropped := by
  have hledger : (a.toLedger.noteForm site probe s.specifier).warnings.tellOfDropped =
      a.warnings.tellOfDropped := by
    unfold Ledger.noteForm
    dsimp only
    split
    · simp [Ledger.warn, Warnings.tellOfDropped_push, Warning.isOfDropped]
    · simp [Ledger.warn, Warnings.tellOfDropped_push, Warning.isOfDropped]
    · rfl
  unfold checkForm
  dsimp only
  split
  · exact hledger
  · unfold addFix
    split <;> exact hledger

theorem enterPlain_tellOfDropped (r : Ledger) (name : Text) (path : ModulePath)
    (keyword specifier : Text) :
    (r.enterPlain name path keyword specifier).2.warnings.tellOfDropped =
      r.warnings.tellOfDropped := by
  unfold Ledger.enterPlain
  split
  · rfl
  · dsimp only
    split
    · rfl
    · simp [Ledger.warn, Warnings.tellOfDropped_push, Warning.isOfDropped]

theorem addDestructuring_tellOfDropped (a : Survey) (site : Site) {s : Statement} {inner : Text}
    (hinner : s.binding = .braces inner) :
    (a.addDestructuring site s.keyword inner s.quote s.specifier).warnings.tellOfDropped =
      (a.warnings.tellOfDropped || (s.filing? site).any a.drops) := by
  rcases a.addDestructuring_filing site hinner with
    ⟨hnone, hsame | ⟨_, _, _, _, _, hwarned⟩⟩ | ⟨e, hfiling, hentered⟩
  · rw [hnone, hsame, Option.any_none, Bool.or_false]
  · rw [hnone, hwarned]
    simp [Ledger.warn, Warnings.tellOfDropped_push, Warning.isOfDropped]
  · rw [hfiling, hentered, Option.any_some, Ledger.drops]
    dsimp only
    unfold Ledger.enterDestructured
    cases hfirst : a.destructured? e.1 with
    | none => simp
    | some first =>
      by_cases hsame : first = e.2
      · simp [hsame]
      · simp [hsame, Ledger.warn, Warnings.tellOfDropped_push, Warning.isOfDropped]

/-- A statement leads to such a warning exactly if it is dropped. -/
theorem add_tellOfDropped {a b : Survey} {s : Statement}
    (h : a.add site probe owner? pathsOnly s = .ok b) :
    b.warnings.tellOfDropped = (a.warnings.tellOfDropped ||
      !pathsOnly && ((s.completed site probe).filing? site).any a.drops) := by
  have hchecked := a.checkForm_tellOfDropped site probe s
  have hdrops : (a.checkForm site probe s).drops = a.drops := by
    funext e
    rw [Ledger.drops, Ledger.destructured?, (checkForm_eq a site probe s).2, Ledger.drops,
      Ledger.destructured?]
  unfold add at h
  dsimp only at h
  split at h
  · next id hid =>
    have hnone : (s.completed site probe).filing? site = none := Statement.filing?_of_name hid
    rw [hnone, Option.any_none, Bool.and_false, Bool.or_false]
    unfold addPlain at h
    dsimp only at h
    split at h
    · contradiction
    · cases h
      rw [← hchecked]
      exact enterPlain_tellOfDropped _ _ _ _ _
  · next inner hinner =>
    cases h
    cases pathsOnly with
    | true => simpa using hchecked
    | false =>
      have hbraces : (s.completed site probe).binding = .braces inner := hinner
      have hfiled := (a.checkForm site probe s).addDestructuring_tellOfDropped site hbraces
      rw [hchecked, hdrops] at hfiled
      exact hfiled

theorem add_destructured? {a b : Survey} {s : Statement}
    (h : a.add site probe owner? false s = .ok b) (k : ModulePath) :
    b.destructured? k = (a.destructured? k).or
      (((s.completed site probe).filing? site).bind fun e =>
        if e.1 = k then some e.2 else none) := by
  have hb := add_destructured h
  rw [if_neg Bool.false_ne_true] at hb
  rw [Ledger.destructured?, hb]
  cases hfiling : (s.completed site probe).filing? site with
  | none => simp [Ledger.destructured?]
  | some e =>
    dsimp only
    by_cases htaken : (a.destructured? e.1).isSome
    · rw [if_pos htaken, ← Ledger.destructured?]
      by_cases hk : e.1 = k
      · subst hk
        obtain ⟨d, hd⟩ := Option.isSome_iff_exists.mp htaken
        simp [hd]
      · simp [hk]
    · rw [if_neg htaken, List.find?_append, Ledger.destructured?]
      by_cases hk : e.1 = k
      · cases a.destructured.find? (fun e => e.1 = k) <;> simp [hk]
      · simp [hk]

/-- What is filed is found under its key. -/
theorem ofSource_destructured? {source : Text} {survey : Survey}
    (h : ofSource site probe owner? false source = .ok survey) (e : ModulePath × Destructuring) :
    e ∈ survey.destructured ↔ survey.destructured? e.1 = some e.2 := by
  constructor
  · revert e
    refine ofSource_induction (motive := fun a _ => ∀ e ∈ a.destructured,
      a.destructured? e.1 = some e.2) h (by simp) fun a i b _ ha hi e he => ?_
    have hold (he : e ∈ a.destructured) : b.destructured? e.1 = some e.2 := by
      rw [add_destructured? hi, ha e he, Option.some_or]
    rw [add_destructured hi, if_neg Bool.false_ne_true] at he
    split at he
    · exact hold he
    · next e' hfiling =>
      split at he
      · exact hold he
      · next hfree =>
        rcases List.mem_append.mp he with he | he
        · exact hold he
        · rw [List.mem_singleton.mp he, add_destructured? hi, hfiling]
          simp only [Option.not_isSome_iff_eq_none] at hfree
          simp [hfree]
  · intro hfound
    obtain ⟨e', he', hd⟩ := Option.map_eq_some_iff.mp hfound
    have hkey : e'.1 = e.1 := by simpa using List.find?_some he'
    obtain rfl : e' = e := Prod.ext hkey hd
    exact List.mem_of_find?_eq_some he'

/-- There is such a warning exactly if some statement that can be filed is not. -/
theorem ofSource_tellOfDropped {source : Text} {survey : Survey}
    (h : ofSource site probe owner? pathsOnly source = .ok survey) :
    survey.warnings.tellOfDropped = false ↔
      (pathsOnly = false → ∀ s ∈ statementsOf source, ∀ e,
        (s.completed site probe).filing? site = some e → e ∈ survey.destructured) := by
  cases pathsOnly with
  | true =>
    have hnone := ofSource_induction (motive := fun a _ => a.warnings.tellOfDropped = false) h rfl
      fun a i b _ ha hi => by rw [add_tellOfDropped hi, ha]; simp
    simp [hnone]
  | false =>
    have hall := ofSource_induction (motive := fun a done =>
      (∀ i ∈ done, ∀ e, (i.toStatement.completed site probe).filing? site = some e →
        (a.destructured? e.1).isSome = true) ∧
      (a.warnings.tellOfDropped = false ↔ ∀ i ∈ done, ∀ e,
        (i.toStatement.completed site probe).filing? site = some e →
          a.destructured? e.1 = some e.2)) h ⟨by simp, by simp; rfl⟩ fun a i b done ha hi => ?_
    · simpa [statementsOf, ofSource_destructured? h] using hall.2
    · obtain ⟨hknown, hiff⟩ := ha
      -- what was filed under a key stays there
      have hkept {k : ModulePath} (hk : (a.destructured? k).isSome = true) :
          b.destructured? k = a.destructured? k := by
        obtain ⟨d, hd⟩ := Option.isSome_iff_exists.mp hk
        rw [add_destructured? hi, hd, Option.some_or]
      have hown {e : ModulePath × Destructuring}
          (hfiling : (i.toStatement.completed site probe).filing? site = some e) :
          b.destructured? e.1 = (a.destructured? e.1).or (some e.2) := by
        rw [add_destructured? hi, hfiling]
        simp
      constructor
      · intro j hj e hfiling
        rcases List.mem_append.mp hj with hj | hj
        · rw [hkept (hknown j hj e hfiling)]
          exact hknown j hj e hfiling
        · rw [List.mem_singleton.mp hj] at hfiling
          simp [hown hfiling]
      · have hnew : (∀ e, (i.toStatement.completed site probe).filing? site = some e →
            b.destructured? e.1 = some e.2) ↔
              ((i.toStatement.completed site probe).filing? site).any a.drops = false := by
          cases hfiling : (i.toStatement.completed site probe).filing? site with
          | none => simp
          | some e =>
            simp only [Option.some.injEq, forall_eq', hown hfiling, Option.any_some, Ledger.drops]
            cases a.destructured? e.1 <;> simp
        rw [add_tellOfDropped hi, Bool.or_eq_false_iff, hiff, Bool.not_false, Bool.true_and, ← hnew,
          List.forall_mem_append, List.forall_mem_singleton]
        refine and_congr (forall₂_congr fun j hj => forall₂_congr fun e hfiling => ?_) Iff.rfl
        rw [hkept (hknown j hj e hfiling)]

end Survey
end Namespacer
