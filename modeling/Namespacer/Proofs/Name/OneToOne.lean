import Namespacer.Name.Map

/-! A name map is one to one. Its two tables are views of one relation between modules and names,
and they stay so through every assignment, whatever comes of the attempt to store it. -/
namespace Namespacer

/-- What a map takes up from a store. -/
def Store.contents (store : Store) (disk : Disk) : Table Text :=
  match store.load disk with
  | .ok (some names) => names
  | _ => .empty

namespace NameMap

/-- Looking up a module's name and looking up a name's module undo each other. -/
def OneToOne (m : NameMap) : Prop :=
  ∀ (path : ModulePath) (name : Text), m.name? path = some name ↔ m.owner? name = some path

theorem OneToOne.eq_of_name? {m : NameMap} (h : m.OneToOne) {p q : ModulePath} {name : Text}
    (hp : m.name? p = some name) (hq : m.name? q = some name) : p = q := by
  rw [h] at hp hq
  exact Option.some.inj (hp.symm.trans hq)

/-! Opening a map. -/

theorem ofStore_eq (store : Store) (disk : Disk) :
    ofStore store disk =
      match ownersOf .empty (store.contents disk).entries with
      | .ok owners => .ok ⟨store.contents disk, owners, store⟩
      | .error f => .error f := rfl

theorem find?_ownersOf {owners result : Table ModulePath} {entries : List (Text × Text)}
    (h : ownersOf owners entries = .ok result) (name : Text) (path : ModulePath) :
    result.find? name = some path ↔
      owners.find? name = some path ∨ (path.text, name) ∈ entries := by
  induction entries generalizing owners with
  | nil =>
    rw [ownersOf, Except.ok.injEq] at h
    simp [h]
  | cons entry rest ih =>
    obtain ⟨p, n⟩ := entry
    rw [ownersOf] at h
    split at h
    · contradiction
    · next hnew =>
      rw [ih h, Table.find?_insert, List.mem_cons]
      by_cases heq : n = name
      · subst heq
        obtain ⟨q⟩ := path
        simp [hnew, eq_comm]
      · simp [heq, Ne.symm heq]

theorem ownersOf_error {owners : Table ModulePath} {entries : List (Text × Text)} {f : Fault}
    (h : ownersOf owners entries = .error f) :
    ∃ name existing requested earlier later,
      f = .nameTaken name existing requested ∧
      entries = earlier ++ (requested.text, name) :: later ∧
      (owners.find? name = some existing ∨ (existing.text, name) ∈ earlier) := by
  induction entries generalizing owners with
  | nil => cases h
  | cons entry rest ih =>
    obtain ⟨p, n⟩ := entry
    rw [ownersOf] at h
    split at h
    · next existing hfound =>
      cases h
      exact ⟨n, existing, ⟨p⟩, [], rest, rfl, rfl, .inl hfound⟩
    · next hnew =>
      obtain ⟨name, existing, requested, earlier, later, rfl, rfl, hgiven⟩ := ih h
      refine ⟨name, existing, requested, (p, n) :: earlier, later, rfl, rfl, ?_⟩
      rcases hgiven with hgiven | hgiven
      · rw [Table.find?_insert] at hgiven
        split at hgiven
        · next heq =>
          cases hgiven
          exact .inr (by simp [heq])
        · exact .inl hgiven
      · exact .inr (List.mem_cons_of_mem _ hgiven)

theorem ofStore_oneToOne {store : Store} {disk : Disk} {m : NameMap}
    (h : ofStore store disk = .ok m) : m.OneToOne := by
  intro path name
  rw [ofStore_eq] at h
  split at h
  · next owners howners =>
    cases h
    rw [owner?, find?_ownersOf howners, Table.mem_entries_iff]
    simp [name?]
  · contradiction

theorem ofStore_names {store : Store} {disk : Disk} {m : NameMap}
    (h : ofStore store disk = .ok m) : m.names = store.contents disk := by
  rw [ofStore_eq] at h
  split at h
  · cases h
    rfl
  · contradiction

/-- A refusal at opening names two modules that the store gives one name. -/
theorem ofStore_error {store : Store} {disk : Disk} {f : Fault}
    (h : ofStore store disk = .error f) :
    ∃ name existing requested, f = .nameTaken name existing requested ∧ existing ≠ requested ∧
      (store.contents disk).find? existing.text = some name ∧
      (store.contents disk).find? requested.text = some name := by
  rw [ofStore_eq] at h
  split at h
  · contradiction
  · next g hg =>
    cases h
    obtain ⟨name, existing, requested, earlier, later, rfl, hentries, hgiven⟩ := ownersOf_error hg
    have hearlier : (existing.text, name) ∈ earlier := hgiven.resolve_left (by simp)
    have hsorted := (store.contents disk).sorted
    rw [hentries, List.pairwise_append] at hsorted
    have hlt := hsorted.2.2 _ hearlier _ List.mem_cons_self
    have hdistinct : existing ≠ requested := by
      rintro rfl
      exact List.lt_irrefl _ hlt
    refine ⟨name, existing, requested, rfl, hdistinct, ?_, ?_⟩
    · rw [← Table.mem_entries_iff, hentries]
      exact List.mem_append_left _ hearlier
    · rw [← Table.mem_entries_iff, hentries]
      exact List.mem_append_right _ List.mem_cons_self

/-! Assigning a name. -/

/-- What an assignment can do: leave both tables as they are, or enter a name that is free for a
module that has none. -/
theorem assign_cases {m m' : NameMap} {disk disk' : Disk} {path : ModulePath} {name : Text}
    {plain : Table ModulePath} {result : Except Failure Unit}
    (h : m.assign disk path name plain = (result, m', disk')) :
    (m'.names = m.names ∧ m'.owners = m.owners ∧
      (result = .ok () → m.name? path = some name)) ∨
    (result = .ok () ∧ m.name? path = none ∧ m.owner? name = none ∧
      (∀ existing, plain.find? name = some existing → existing.key = path) ∧
      m'.names = m.names.insert path.text name ∧ m'.owners = m.owners.insert name path) := by
  unfold assign at h
  split at h
  · next existing hexisting =>
    cases h
    refine .inl ⟨rfl, rfl, fun hok => ?_⟩
    split at hok
    · next heq => rw [hexisting, heq]
    · contradiction
  · next hnone =>
    split at h
    · cases h
      exact .inl ⟨rfl, rfl, nofun⟩
    · next hfree =>
      dsimp only at h
      split at h
      · cases h
        exact .inl ⟨rfl, rfl, nofun⟩
      · cases h
        unfold obstacle? at hfree
        split at hfree
        · contradiction
        · next howner =>
          refine .inr ⟨rfl, hnone, howner, fun existing hplain => ?_, rfl, rfl⟩
          rw [hplain] at hfree
          by_cases hkey : existing.key = path
          · exact hkey
          · rw [Option.filter_some_pos (by simpa using hkey)] at hfree
            contradiction

theorem assign_oneToOne {m m' : NameMap} {disk disk' : Disk} {path : ModulePath} {name : Text}
    {plain : Table ModulePath} {result : Except Failure Unit} (hm : m.OneToOne)
    (h : m.assign disk path name plain = (result, m', disk')) : m'.OneToOne := by
  intro p n
  rcases assign_cases h with ⟨hnames, howners, -⟩ | ⟨-, hfresh, hfree, -, hnames, howners⟩
  · rw [name?, owner?, hnames, howners]
    exact hm p n
  · rw [name?, owner?, hnames, howners, Table.find?_insert, Table.find?_insert]
    obtain ⟨pathText⟩ := path
    obtain ⟨pText⟩ := p
    by_cases hp : pathText = pText
    · subst hp
      by_cases hn : name = n
      · simp [hn]
      · have hother : m.owner? n ≠ some ⟨pathText⟩ := by
          rw [Ne, ← hm, hfresh]
          simp
        simpa [hn, owner?] using hother
    · by_cases hn : name = n
      · subst hn
        have hother : m.name? ⟨pText⟩ ≠ some name := by
          rw [Ne, hm, hfree]
          simp
        simpa [hp, name?] using hother
      · simpa [hp, hn, name?, owner?] using hm ⟨pText⟩ n

theorem name?_assign_of_some {m m' : NameMap} {disk disk' : Disk} {path p : ModulePath}
    {name n : Text} {plain : Table ModulePath} {result : Except Failure Unit}
    (h : m.assign disk path name plain = (result, m', disk')) (hp : m.name? p = some n) :
    m'.name? p = some n := by
  rcases assign_cases h with ⟨hnames, -, -⟩ | ⟨-, hfresh, -, -, hnames, -⟩
  · rw [name?, hnames]
    exact hp
  · have hne : path.text ≠ p.text := by
      intro heq
      rw [name?, heq, ← name?, hp] at hfresh
      contradiction
    rw [name?, hnames, Table.find?_insert_of_ne _ _ hne]
    exact hp

theorem name?_assign {m m' : NameMap} {disk disk' : Disk} {path : ModulePath} {name : Text}
    {plain : Table ModulePath} (h : m.assign disk path name plain = (.ok (), m', disk')) :
    m'.name? path = some name := by
  rcases assign_cases h with ⟨hnames, -, hhad⟩ | ⟨-, -, -, -, hnames, -⟩
  · rw [name?, hnames]
    exact hhad rfl
  · rw [name?, hnames, Table.find?_insert_self]

/-! Assignments one after another. -/

/-- The arguments of one assignment. The disk may be another one each time, so that saving to a
file may succeed or fail at any point. -/
structure Attempt where
  disk : Disk
  path : ModulePath
  name : Text
  plain : Table ModulePath

def attempt (m : NameMap) (a : Attempt) : Except Failure Unit × NameMap :=
  let (result, m', _) := m.assign a.disk a.path a.name a.plain
  (result, m')

def afterAttempts (m : NameMap) (attempts : List Attempt) : NameMap :=
  attempts.foldl (fun m a => (m.attempt a).2) m

theorem assign_eq_attempt (m : NameMap) (a : Attempt) :
    m.assign a.disk a.path a.name a.plain =
      ((m.attempt a).1, (m.attempt a).2, (m.assign a.disk a.path a.name a.plain).2.2) := rfl

theorem afterAttempts_oneToOne {m : NameMap} (hm : m.OneToOne) (attempts : List Attempt) :
    (m.afterAttempts attempts).OneToOne := by
  induction attempts generalizing m with
  | nil => exact hm
  | cons a rest ih => exact ih (assign_oneToOne hm (assign_eq_attempt m a))

/-- Opening a store is refused exactly when it gives two modules one name. A map that is opened
takes up what is stored; from then on its two tables are inverse to each other, a module keeps its
name, an assignment that fails changes neither table, and one that succeeds gives the name. -/
theorem ofStore_attempts (store : Store) (disk : Disk) :
    ((∃ name existing requested,
        ofStore store disk = .error (.nameTaken name existing requested)) ↔
      ∃ p q name, p ≠ q ∧ (store.contents disk).find? p = some name ∧
        (store.contents disk).find? q = some name) ∧
    (∀ f, ofStore store disk = .error f →
      ∃ name existing requested, f = .nameTaken name existing requested) ∧
    ∀ m, ofStore store disk = .ok m →
      m.names = store.contents disk ∧ m.OneToOne ∧
      ∀ attempts a before result after, m.afterAttempts attempts = before →
        before.attempt a = (result, after) →
        after.OneToOne ∧
        (∀ path name, before.name? path = some name → after.name? path = some name) ∧
        (∀ e, result = .error e → after.names = before.names ∧ after.owners = before.owners) ∧
        (result = .ok () → after.name? a.path = some a.name) := by
  refine ⟨⟨?_, ?_⟩, ?_, ?_⟩
  · rintro ⟨_, _, _, h⟩
    obtain ⟨name, existing, requested, -, hne, hexisting, hrequested⟩ := ofStore_error h
    refine ⟨existing.text, requested.text, name, fun heq => hne ?_, hexisting, hrequested⟩
    cases existing
    cases requested
    exact congrArg ModulePath.mk heq
  · rintro ⟨p, q, name, hne, hp, hq⟩
    cases h : ofStore store disk with
    | error f =>
      obtain ⟨n, existing, requested, rfl, -⟩ := ofStore_error h
      exact ⟨n, existing, requested, rfl⟩
    | ok m =>
      rw [← ofStore_names h] at hp hq
      have hsame := (ofStore_oneToOne h).eq_of_name? (p := ⟨p⟩) (q := ⟨q⟩) hp hq
      exact absurd (congrArg ModulePath.text hsame) hne
  · intro f h
    obtain ⟨name, existing, requested, rfl, -⟩ := ofStore_error h
    exact ⟨name, existing, requested, rfl⟩
  · intro m h
    refine ⟨ofStore_names h, ofStore_oneToOne h, ?_⟩
    rintro attempts a before result after rfl hattempt
    have hstep := assign_eq_attempt (m.afterAttempts attempts) a
    rw [hattempt] at hstep
    refine ⟨assign_oneToOne (afterAttempts_oneToOne (ofStore_oneToOne h) attempts) hstep,
      fun path name => name?_assign_of_some hstep, ?_, ?_⟩
    · rintro e rfl
      rcases assign_cases hstep with ⟨hnames, howners, -⟩ | ⟨hok, -⟩
      · exact ⟨hnames, howners⟩
      · contradiction
    · rintro rfl
      exact name?_assign hstep

/-- A save succeeds, then one fails: the first name stays and the second module has none. -/
theorem ofStore_attempts_failed_save :
    let store := Store.rehearsed true [true, false]
    let disk := Disk.blank []
    let first : Attempt := ⟨disk, ⟨"./a.js".toList⟩, "A".toList, .empty⟩
    let second : Attempt := ⟨disk, ⟨"./b.js".toList⟩, "B".toList, .empty⟩
    ∃ m after e, ofStore store disk = .ok m ∧
      (m.afterAttempts [first]).attempt second = (.error e, after) ∧ after.OneToOne ∧
      after.name? ⟨"./a.js".toList⟩ = some "A".toList ∧
      after.owners = (m.afterAttempts [first]).owners := by
  intro store disk first second
  obtain ⟨hone, hkept, hfailed, -⟩ := (ofStore_attempts store disk).2.2 _ rfl |>.2.2
    [first] second _ _ _ rfl rfl
  exact ⟨_, _, _, rfl, rfl, hone, hkept _ _ rfl, (hfailed _ rfl).2⟩

end NameMap
end Namespacer
