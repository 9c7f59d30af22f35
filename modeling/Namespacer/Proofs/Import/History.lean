import Namespacer.Proofs.Import.PathsOnly
import Namespacer.Proofs.Import.Reported

/-! What a ledger holds, told from all the imports that were entered in it, one after another. The
first of its kind is filed, a repetition leaves no trace, and every import that says something else
than the first leaves one warning. -/
namespace Namespacer

open Text

theorem Warnings.find?_push (w : Warnings) (key key' : Text) (warning : Warning) :
    (w.push key warning).find? key' =
      if key = key' then some (w.about key ++ [warning]) else w.find? key' :=
  Table.find?_insert w.byKey key key' _

namespace Ledger

/-- An import as it is entered in a ledger. -/
inductive Entry where
  | list (path : ModulePath) (record : Destructuring) (keyword : Text)
  | plain (name : Text) (path : ModulePath) (keyword specifier : Text)
  deriving DecidableEq

def enter (r : Ledger) : Entry → Bool × Ledger
  | .list path record keyword => r.enterDestructured path record keyword
  | .plain name path keyword specifier => r.enterPlain name path keyword specifier

/-- Enters imports one after another, and lists the answers. -/
def enterAll (r : Ledger) : List Entry → List Bool × Ledger
  | [] => ([], r)
  | entry :: rest =>
    let (answer, r) := r.enter entry
    let (answers, r) := r.enterAll rest
    (answer :: answers, r)

namespace Entry

def recordOf? (path : ModulePath) : Entry → Option Destructuring
  | list path' record _ => if path' = path then some record else none
  | plain .. => none

def moduleOf? (name : Text) : Entry → Option ModulePath
  | list .. => none
  | plain name' path _ _ => if name' = name then some path else none

end Entry

/-! The history of a ledger. -/

/-- Each entry with those before it, where `before` comes before all of them. -/
def withHistory (before : List Entry) : List Entry → List (List Entry × Entry)
  | [] => []
  | entry :: rest => (before, entry) :: withHistory (before ++ [entry]) rest

def firstRecord? (entries : List Entry) (path : ModulePath) : Option Destructuring :=
  entries.findSome? (Entry.recordOf? path)

def firstModule? (entries : List Entry) (name : Text) : Option ModulePath :=
  entries.findSome? (Entry.moduleOf? name)

namespace Entry

/-- Whether no entry before is about the same module, or the same plain name. -/
def isFirst (before : List Entry) : Entry → Bool
  | list path _ _ => (firstRecord? before path).isNone
  | plain name _ _ _ => (firstModule? before name).isNone

/-- What is listed because of an entry: a braced list that is the first of its module. -/
def listed? (before : List Entry) : Entry → Option (ModulePath × Destructuring)
  | list path record _ => if firstRecord? before path = none then some (path, record) else none
  | plain .. => none

/-- What is said about an entry: that it differs from the first of its kind. -/
def complaint? (before : List Entry) : Entry → Option (Text × Warning)
  | list path record keyword =>
    match firstRecord? before path with
    | none => none
    | some first =>
      if first = record then none else some (path.text, .redeclaredList keyword record)
  | plain name path keyword specifier =>
    match firstModule? before name with
    | none => none
    | some first =>
      if first = path then none else some (path.text, .redeclaredName keyword name specifier)

end Entry

/-- The braced lists that are the first of their modules, in the order of their entries. -/
def listedIn (entries : List Entry) : List (ModulePath × Destructuring) :=
  (withHistory [] entries).filterMap fun e => e.2.listed? e.1

/-- What is said under a key, in the order of the entries that it is about. -/
def complaintsAbout (key : Text) (entries : List Entry) : List Warning :=
  ((withHistory [] entries).filterMap fun e => e.2.complaint? e.1).filterMap fun c =>
    if c.1 = key then some c.2 else none

theorem withHistory_append (before entries : List Entry) (entry : Entry) :
    withHistory before (entries ++ [entry]) =
      withHistory before entries ++ [(before ++ entries, entry)] := by
  induction entries generalizing before with
  | nil => simp [withHistory]
  | cons first rest ih => simp [withHistory, ih]

theorem listedIn_append (entries : List Entry) (entry : Entry) :
    listedIn (entries ++ [entry]) = listedIn entries ++ (entry.listed? entries).toList := by
  unfold listedIn
  rw [withHistory_append, List.filterMap_append, List.nil_append]
  cases h : entry.listed? entries <;> simp [h]

theorem complaintsAbout_append (key : Text) (entries : List Entry) (entry : Entry) :
    complaintsAbout key (entries ++ [entry]) = complaintsAbout key entries ++
      ((entry.complaint? entries).bind fun c => if c.1 = key then some c.2 else none).toList := by
  unfold complaintsAbout
  rw [withHistory_append, List.filterMap_append, List.filterMap_append, List.nil_append]
  cases h : entry.complaint? entries with
  | none => simp [h]
  | some c =>
    by_cases hkey : c.1 = key <;> simp [h, hkey]

theorem firstRecord?_append (entries : List Entry) (entry : Entry) (path : ModulePath) :
    firstRecord? (entries ++ [entry]) path =
      (firstRecord? entries path).or (entry.recordOf? path) := by
  simp [firstRecord?, List.findSome?_append]

theorem firstModule?_append (entries : List Entry) (entry : Entry) (name : Text) :
    firstModule? (entries ++ [entry]) name =
      (firstModule? entries name).or (entry.moduleOf? name) := by
  simp [firstModule?, List.findSome?_append]

/-! What one entry does. -/

theorem destructured?_eq_none_iff {r : Ledger} {path : ModulePath} :
    r.destructured? path = none ↔ ∀ e ∈ r.destructured, e.1 ≠ path := by
  simp [destructured?]

/-- A ledger that holds just what the entries so far tell. -/
structure Tells (entries : List Entry) (r : Ledger) : Prop where
  listed : r.destructured = listedIn entries
  distinct : (r.destructured.map Prod.fst).Nodup
  record (path : ModulePath) : r.destructured? path = firstRecord? entries path
  plain (name : Text) : r.plain.find? name = firstModule? entries name
  warnings (key : Text) : r.warnings.find? key =
    if complaintsAbout key entries = [] then none else some (complaintsAbout key entries)

namespace Tells

theorem start : Tells [] {} := ⟨rfl, .nil, fun _ => rfl, fun _ => rfl, fun _ => rfl⟩

variable {entries : List Entry} {r : Ledger} (h : Tells entries r) (entry : Entry)

include h

theorem enter_answer : (r.enter entry).1 = entry.isFirst entries := by
  cases entry with
  | list path record keyword =>
    rw [enter, enterDestructured, h.record, Entry.isFirst]
    cases firstRecord? entries path <;> rfl
  | plain name path keyword specifier =>
    rw [enter, enterPlain, h.plain, Entry.isFirst]
    cases firstModule? entries name <;> rfl

theorem enter_destructured :
    (r.enter entry).2.destructured = r.destructured ++ (entry.listed? entries).toList := by
  cases entry with
  | list path record keyword =>
    rw [enter, enterDestructured, h.record, Entry.listed?]
    cases firstRecord? entries path with
    | none => rfl
    | some first =>
      dsimp only
      split <;> simp [warn]
  | plain name path keyword specifier =>
    rw [enter, (Survey.enterPlain_plain r name path keyword specifier).2]
    simp [Entry.listed?]

theorem enter_record (path : ModulePath) :
    (r.enter entry).2.destructured? path =
      (firstRecord? entries path).or (entry.recordOf? path) := by
  rw [destructured?, h.enter_destructured, List.find?_append, Option.map_or, ← destructured?,
    h.record]
  cases entry with
  | plain name path' keyword specifier => rfl
  | list path' record keyword =>
    rw [Entry.listed?, Entry.recordOf?]
    by_cases hpath : path' = path
    · subst hpath
      cases firstRecord? entries path' <;> simp
    · split <;> simp [hpath]

theorem enter_plain (name : Text) :
    (r.enter entry).2.plain.find? name =
      (firstModule? entries name).or (entry.moduleOf? name) := by
  cases entry with
  | list path record keyword =>
    rw [enter, enterDestructured, h.record, Entry.moduleOf?, Option.or_none, ← h.plain]
    cases firstRecord? entries path with
    | none => rfl
    | some first =>
      dsimp only
      split <;> rfl
  | plain name' path keyword specifier =>
    rw [enter, (Survey.enterPlain_plain r name' path keyword specifier).1, Table.find?_insertNew,
      Entry.moduleOf?, h.plain, h.plain]
    by_cases hname : name' = name
    · subst hname
      cases firstModule? entries name' <;> simp
    · simp [hname]

/-- An entry leaves the warning that is to be said about it. -/
theorem enter_warnings :
    (r.enter entry).2.warnings =
      match entry.complaint? entries with
      | none => r.warnings
      | some c => r.warnings.push c.1 c.2 := by
  cases entry with
  | list path record keyword =>
    rw [enter, enterDestructured, h.record, Entry.complaint?]
    cases firstRecord? entries path with
    | none => rfl
    | some first =>
      dsimp only
      split <;> rfl
  | plain name path keyword specifier =>
    rw [enter, enterPlain, h.plain, Entry.complaint?]
    cases firstModule? entries name with
    | none => rfl
    | some first =>
      dsimp only
      split <;> rfl

theorem enter_distinct : ((r.enter entry).2.destructured.map Prod.fst).Nodup := by
  rw [h.enter_destructured]
  cases entry with
  | plain name path keyword specifier => simpa [Entry.listed?] using h.distinct
  | list path record keyword =>
    rw [Entry.listed?]
    split
    · next hfree =>
      rw [← h.record, destructured?_eq_none_iff] at hfree
      rw [List.map_append, List.nodup_append]
      exact ⟨h.distinct, by simp, by simpa using hfree⟩
    · simpa using h.distinct

theorem about (key : Text) : r.warnings.about key = complaintsAbout key entries := by
  rw [Warnings.about, h.warnings]
  split
  · next hnone => exact hnone.symm
  · rfl

theorem enter_about (key : Text) :
    (r.enter entry).2.warnings.find? key =
      if complaintsAbout key (entries ++ [entry]) = [] then none
      else some (complaintsAbout key (entries ++ [entry])) := by
  rw [h.enter_warnings, complaintsAbout_append]
  cases entry.complaint? entries with
  | none => simpa using h.warnings key
  | some c =>
    obtain ⟨key', warning⟩ := c
    dsimp only
    rw [Warnings.find?_push, h.about, Option.bind_some]
    by_cases hkey : key' = key
    · subst hkey
      simp
    · simpa [hkey] using h.warnings key

/-- One more entry. -/
theorem enter : Tells (entries ++ [entry]) (r.enter entry).2 where
  listed := by rw [h.enter_destructured, h.listed, listedIn_append]
  distinct := h.enter_distinct entry
  record path := by rw [h.enter_record, firstRecord?_append]
  plain name := by rw [h.enter_plain, firstModule?_append]
  warnings := h.enter_about entry

theorem enterAll (more : List Entry) :
    (r.enterAll more).1 = (withHistory entries more).map (fun e => e.2.isFirst e.1) ∧
      Tells (entries ++ more) (r.enterAll more).2 := by
  induction more generalizing entries r with
  | nil => exact ⟨rfl, by simpa [Ledger.enterAll] using h⟩
  | cons entry rest ih =>
    obtain ⟨hanswers, hrest⟩ := ih (h.enter entry)
    rw [List.append_assoc] at hrest
    refine ⟨?_, hrest⟩
    rw [withHistory, List.map_cons, ← hanswers, ← h.enter_answer entry]
    rfl

end Tells

/-- Imports entered in an empty ledger. An answer tells whether there was none of that module, or
of that name, before. Each destructured module is listed once, in the order of the first lists, with
its first list, and each plain name stands for the module of its first import. Under each key there
is one warning for every import of this path that differs from the first of its kind, in the order
of the imports, and there are no other warnings. -/
theorem enterAll_history (entries : List Entry) :
    let answers := (({} : Ledger).enterAll entries).1
    let r := (({} : Ledger).enterAll entries).2
    answers = (withHistory [] entries).map (fun e => e.2.isFirst e.1) ∧
    r.destructured = listedIn entries ∧
    (r.destructured.map Prod.fst).Nodup ∧
    (∀ path, r.destructured? path = firstRecord? entries path) ∧
    (∀ name, r.plain.find? name = firstModule? entries name) ∧
    ∀ key, r.warnings.find? key =
      if complaintsAbout key entries = [] then none else some (complaintsAbout key entries) := by
  intro answers r
  obtain ⟨hanswers, htells⟩ := Tells.start.enterAll entries
  rw [List.nil_append] at htells
  exact ⟨hanswers, htells.listed, htells.distinct, htells.record, htells.plain, htells.warnings⟩

/-- The second list and the second module are dropped with a warning each. -/
example :
    let list (symbol : String) : Entry :=
      .list ⟨"./b.js".toList⟩ ⟨"'./b.js'".toList, [], [symbol.toList]⟩ "let".toList
    let plain (path : String) : Entry :=
      .plain "g".toList ⟨path.toList⟩ "let".toList path.toList
    let r := ({} : Ledger).enterAll
      [list "a", plain "./h.js", list "c", list "a", plain "./i.js"]
    r.1 = [true, true, false, false, false] ∧
      r.2.warnings.toList.map (fun e => (String.ofList e.1, e.2.message)) =
        [("./b.js", "confusing redeclaration: let \x7b c \x7d = './b.js'"),
          ("./i.js", "confusing redeclaration: let g = ./i.js")] := by
  decide +kernel

end Ledger
end Namespacer
