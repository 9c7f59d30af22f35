import Mathlib.Algebra.GroupWithZero.Nat
import Namespacer.Proofs.Import.PathsOnly
import Namespacer.Proofs.Sorting
import Namespacer.Proofs.Text.ByteOrder

/-! The order in which warnings are listed. However their keys alternate, the list has all of them
sorted by key, and those of one key in the order they came. -/
namespace Namespacer

open Text

namespace Table

variable {α : Type} (t : Table α)

/-- A key has one entry at most, the one that look-up finds. -/
theorem filter_entries (key : Text) :
    (t.entries.filter fun e => e.1 = key) = (t.find? key).toList.map fun a => (key, a) := by
  unfold find?
  have hsorted := t.sorted
  generalize t.entries = entries at hsorted ⊢
  induction entries with
  | nil => rfl
  | cons head rest ih =>
    obtain ⟨k, a⟩ := head
    obtain ⟨hk, hrest⟩ := List.pairwise_cons.mp hsorted
    rw [List.filter_cons, findIn]
    by_cases heq : k = key
    · subst heq
      -- the keys that follow are greater
      have hnone : (rest.filter fun e => e.1 = k) = [] := by
        refine List.filter_eq_nil_iff.mpr fun e he heq => ?_
        have hlt := hk e he
        rw [of_decide_eq_true heq] at hlt
        exact List.lt_irrefl k hlt
      simp [hnone]
    · simp [heq, ih hrest]

theorem isEmpty_insert (key : Text) (value : α) : (t.insert key value).isEmpty = false := by
  rw [isEmpty, ← Bool.not_eq_true, List.isEmpty_iff]
  intro hnil
  have hfind := t.find?_insert_self key value
  rw [find?, hnil] at hfind
  cases hfind

end Table

namespace Warnings

/-- Pushes warnings one after another, each under its key. -/
def pushAll (w : Warnings) (pushes : List (Text × Warning)) : Warnings :=
  pushes.foldl (fun w e => w.push e.1 e.2) w

@[simp] theorem pushAll_nil (w : Warnings) : w.pushAll [] = w := rfl

@[simp] theorem pushAll_cons (w : Warnings) (e : Text × Warning) (pushes : List (Text × Warning)) :
    w.pushAll (e :: pushes) = (w.push e.1 e.2).pushAll pushes := rfl

/-! What is listed. -/

theorem pairwise_toList (w : Warnings) :
    w.toList.Pairwise fun a b => bytes a.1 ≤ bytes b.1 := by
  unfold toList
  refine List.pairwise_flatMap.mpr ⟨fun e _ => ?_, w.byKey.sorted.imp fun hlt => ?_⟩
  · exact List.pairwise_map.mpr (List.pairwise_of_forall fun _ _ => List.le_refl (bytes e.1))
  · intro x hx y hy
    obtain ⟨_, -, rfl⟩ := List.mem_map.mp hx
    obtain ⟨_, -, rfl⟩ := List.mem_map.mp hy
    exact List.le_of_lt (bytes_lt_bytes hlt)

theorem filter_flatMap_key (entries : List (Text × List Warning)) (key : Text) :
    ((entries.flatMap fun e => e.2.map fun warning => (e.1, warning)).filter
      fun e => e.1 = key) =
      (entries.filter fun e => e.1 = key).flatMap
        fun e => e.2.map fun warning => (e.1, warning) := by
  induction entries with
  | nil => rfl
  | cons e rest ih =>
    rw [List.flatMap_cons, List.filter_append, ih, List.filter_cons]
    by_cases hkey : e.1 = key <;> simp [hkey]

theorem filter_toList (w : Warnings) (key : Text) :
    (w.toList.filter fun e => e.1 = key) = (w.about key).map fun warning => (key, warning) := by
  rw [toList, filter_flatMap_key, Table.filter_entries, about, find?]
  cases w.byKey.find? key <;> simp

theorem size_eq_sum (w : Warnings) : w.size = (w.byKey.entries.map fun e => e.2.length).sum := by
  simp [size, toList, List.length_flatMap]

/-! What is pushed. -/

theorem about_pushAll (w : Warnings) (pushes : List (Text × Warning)) (key : Text) :
    (w.pushAll pushes).about key =
      w.about key ++ (pushes.filter fun e => e.1 = key).map Prod.snd := by
  induction pushes generalizing w with
  | nil => simp
  | cons e pushes ih =>
    rw [pushAll_cons, ih, about_push, List.filter_cons, List.append_assoc]
    by_cases hkey : e.1 = key <;> simp [hkey]

theorem isEmpty_pushAll (w : Warnings) (pushes : List (Text × Warning)) :
    (w.pushAll pushes).isEmpty = (w.isEmpty && pushes.isEmpty) := by
  induction pushes generalizing w with
  | nil => simp
  | cons e pushes ih =>
    have hpush : (w.push e.1 e.2).isEmpty = false := w.byKey.isEmpty_insert _ _
    rw [pushAll_cons, ih, hpush, List.isEmpty_cons, Bool.false_and, Bool.and_false]

/-- Under each key the list has what was pushed under it, in this order. -/
theorem filter_toList_pushAll (pushes : List (Text × Warning)) (key : Text) :
    ((({} : Warnings).pushAll pushes).toList.filter fun e => e.1 = key) =
      pushes.filter fun e => e.1 = key := by
  have hnone : ({} : Warnings).about key = [] := rfl
  have hpair : ∀ e ∈ pushes.filter fun e => e.1 = key, (key, e.2) = id e := by
    intro e he
    rw [← of_decide_eq_true (List.mem_filter.mp he).2]
    rfl
  rw [filter_toList, about_pushAll, hnone, List.nil_append, List.map_map]
  exact (List.map_congr_left hpair).trans (List.map_id _)

/-- Warnings that are pushed one after another. They are listed in the byte order of their keys, as
a stable sort lists them, and so are their messages. Those of each key are all that were pushed
under it, in this order. Their number, which is that of all keys together, is the number of pushes,
and there is none exactly if nothing was pushed. -/
theorem pushAll_sorted (pushes : List (Text × Warning)) :
    let w := ({} : Warnings).pushAll pushes
    w.toList = pushes.mergeSort (fun a b => bytes a.1 ≤ bytes b.1) ∧
    (w.toList.map fun e => (e.1, e.2.message)) =
      (pushes.map fun e => (e.1, e.2.message)).mergeSort (fun a b => bytes a.1 ≤ bytes b.1) ∧
    (∀ key, (w.toList.filter fun e => e.1 = key) = pushes.filter fun e => e.1 = key) ∧
    w.size = pushes.length ∧
    (w.byKey.entries.map fun e => e.2.length).sum = pushes.length ∧
    (w.isEmpty = true ↔ pushes = []) := by
  intro w
  have hsorted : w.toList = pushes.mergeSort fun a b => bytes a.1 ≤ bytes b.1 := by
    refine eq_mergeSort_of_filter_eq w.pairwise_toList fun e => ?_
    simp only [bytes_inj]
    exact filter_toList_pushAll pushes e.1
  have hsize : w.size = pushes.length := by rw [size, hsorted, List.length_mergeSort]
  refine ⟨hsorted, ?_, filter_toList_pushAll pushes, hsize, ?_, ?_⟩
  · rw [hsorted]
    exact List.map_mergeSort fun _ _ _ _ => rfl
  · rw [← size_eq_sum, hsize]
  · rw [isEmpty_pushAll]
    exact List.isEmpty_iff

/-- Two keys that alternate, of which the greater one comes first. -/
example :
    let note (key message : String) : Text × Warning := (key.toList, .note message.toList)
    let w := ({} : Warnings).pushAll [note "./b.js" "1", note "./a.js" "2", note "./b.js" "3"]
    w.toList = [note "./a.js" "2", note "./b.js" "1", note "./b.js" "3"] := by
  decide +kernel

end Warnings
end Namespacer
