import Namespacer.Text.Basic

/-! Finite tables from text to values, kept sorted by key: two tables with the same entries are
equal, and listing a table needs no sorting. -/
namespace Namespacer

structure Table (α : Type) where
  entries : List (Text × α)
  sorted : entries.Pairwise (fun a b => a.1 < b.1)

namespace Table

variable {α : Type}

instance [DecidableEq α] : DecidableEq (Table α) := fun a b =>
  decidable_of_iff (a.entries = b.entries) (by cases a; cases b; simp)

def empty : Table α := ⟨[], .nil⟩

instance : Inhabited (Table α) := ⟨empty⟩

@[ext] theorem ext {a b : Table α} (h : a.entries = b.entries) : a = b := by
  cases a; cases b; simp_all

def keys (t : Table α) : List Text := t.entries.map Prod.fst

def size (t : Table α) : Nat := t.entries.length

def isEmpty (t : Table α) : Bool := t.entries.isEmpty

/-! Look-up, insertion and removal on entry lists. -/

def findIn (key : Text) : List (Text × α) → Option α
  | [] => none
  | (k, a) :: rest => if k = key then some a else findIn key rest

/-- Puts an entry in its place, replacing an entry of the same key. -/
def insertIn (key : Text) (value : α) : List (Text × α) → List (Text × α)
  | [] => [(key, value)]
  | (k, a) :: rest =>
    if key < k then (key, value) :: (k, a) :: rest
    else if key = k then (key, value) :: rest
    else (k, a) :: insertIn key value rest

theorem mem_insertIn {key : Text} {value : α} {e : Text × α} {entries : List (Text × α)}
    (h : e ∈ insertIn key value entries) : e = (key, value) ∨ e ∈ entries := by
  induction entries with
  | nil => simpa [insertIn] using h
  | cons head rest ih =>
    obtain ⟨k, a⟩ := head
    rw [insertIn] at h
    split at h
    · simpa using h
    · split at h
      · rcases List.mem_cons.mp h with h | h
        · exact .inl h
        · exact .inr (List.mem_cons_of_mem _ h)
      · rcases List.mem_cons.mp h with h | h
        · exact .inr (h ▸ List.mem_cons_self)
        · exact (ih h).imp_right (List.mem_cons_of_mem _)

theorem lt_of_not_lt_of_ne {s t : Text} (h : ¬ s < t) (hne : s ≠ t) : t < s :=
  Decidable.byContradiction fun h' =>
    hne (List.le_antisymm (List.not_lt.mp h') (List.not_lt.mp h))

theorem sorted_insertIn (key : Text) (value : α) {entries : List (Text × α)}
    (h : entries.Pairwise (fun a b => a.1 < b.1)) :
    (insertIn key value entries).Pairwise (fun a b => a.1 < b.1) := by
  induction entries with
  | nil => simp [insertIn]
  | cons head rest ih =>
    obtain ⟨k, a⟩ := head
    obtain ⟨hk, hrest⟩ := List.pairwise_cons.mp h
    rw [insertIn]
    split
    · next hlt =>
      refine List.pairwise_cons.mpr ⟨fun e he => ?_, h⟩
      rcases List.mem_cons.mp he with rfl | he
      · exact hlt
      · exact List.lt_trans hlt (hk e he)
    · next hnlt =>
      split
      · next heq => exact List.pairwise_cons.mpr ⟨fun e he => heq ▸ hk e he, hrest⟩
      · next hne =>
        refine List.pairwise_cons.mpr ⟨fun e he => ?_, ih hrest⟩
        rcases mem_insertIn he with rfl | he
        · exact lt_of_not_lt_of_ne hnlt hne
        · exact hk e he

def find? (t : Table α) (key : Text) : Option α := findIn key t.entries

def contains (t : Table α) (key : Text) : Bool := (t.find? key).isSome

def insert (t : Table α) (key : Text) (value : α) : Table α :=
  ⟨insertIn key value t.entries, sorted_insertIn key value t.sorted⟩

def insertNew (t : Table α) (key : Text) (value : α) : Table α :=
  if t.contains key then t else t.insert key value

/-- Of several entries with one key the last counts. -/
def ofList (entries : List (Text × α)) : Table α :=
  entries.foldl (fun t e => t.insert e.1 e.2) empty

@[simp] theorem find?_empty (key : Text) : (empty : Table α).find? key = none := rfl

theorem findIn_insertIn (key key' : Text) (value : α) (entries : List (Text × α)) :
    findIn key' (insertIn key value entries) =
      if key = key' then some value else findIn key' entries := by
  induction entries with
  | nil => rfl
  | cons head rest ih =>
    obtain ⟨k, a⟩ := head
    by_cases hkk : key = key'
    · subst hkk
      rw [insertIn]
      split
      · simp [findIn]
      · split
        · simp [findIn]
        · next hne => simpa [findIn, Ne.symm hne] using ih
    · rw [insertIn]
      split
      · simp [findIn, hkk]
      · split
        · next heq => subst heq; simp [findIn, hkk]
        · simp [findIn, ih, hkk]

theorem find?_insert (t : Table α) (key key' : Text) (value : α) :
    (t.insert key value).find? key' = if key = key' then some value else t.find? key' :=
  findIn_insertIn key key' value t.entries

@[simp] theorem find?_insert_self (t : Table α) (key : Text) (value : α) :
    (t.insert key value).find? key = some value := by
  rw [find?_insert, if_pos rfl]

theorem find?_insert_of_ne (t : Table α) {key key' : Text} (value : α) (h : key ≠ key') :
    (t.insert key value).find? key' = t.find? key' := by
  rw [find?_insert, if_neg h]

theorem find?_insertNew (t : Table α) (key key' : Text) (value : α) :
    (t.insertNew key value).find? key' =
      if t.find? key = none ∧ key = key' then some value else t.find? key' := by
  unfold insertNew contains
  cases h : t.find? key with
  | none => simp [find?_insert]
  | some found => simp

/-- A table lists an entry exactly when look-up finds it. -/
theorem mem_entries_iff {t : Table α} {key : Text} {value : α} :
    (key, value) ∈ t.entries ↔ t.find? key = some value := by
  suffices h : ∀ entries : List (Text × α), entries.Pairwise (fun a b => a.1 < b.1) →
      ((key, value) ∈ entries ↔ findIn key entries = some value) from h t.entries t.sorted
  intro entries hsorted
  induction entries with
  | nil => simp [findIn]
  | cons head rest ih =>
    obtain ⟨k, a⟩ := head
    obtain ⟨hk, hrest⟩ := List.pairwise_cons.mp hsorted
    rw [findIn, List.mem_cons, ih hrest]
    split
    · next heq =>
      subst heq
      have habsent : (k, value) ∉ rest := fun hmem => List.lt_irrefl k (hk _ hmem)
      rw [ih hrest] at habsent
      simp [habsent, eq_comm]
    · next hne =>
      have hother : (key, value) ≠ (k, a) := fun heq => hne (congrArg Prod.fst heq).symm
      simp [hother]

end Table
end Namespacer
