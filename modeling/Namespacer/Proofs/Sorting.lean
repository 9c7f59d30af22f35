/-! Lists in the order of a key. Sorting leaves the elements of one key in the order in which they
are, and no other list is sorted and has the same elements of each key. -/
namespace Namespacer

section Sorting

variable {α κ : Type} [LE κ] [Std.IsLinearOrder κ] [DecidableEq κ] {key : α → κ} {l l' : List α}

/-- The head of a sorted list comes before every element of a list with the same elements of each
key. -/
theorem key_le_of_filter_eq {a b : α} (hsorted : (a :: l).Pairwise fun a b => key a ≤ key b)
    (hsame : ∀ c, ((a :: l).filter fun a => key a = key c) = l'.filter fun a => key a = key c)
    (hb : b ∈ l') : key a ≤ key b := by
  have hmem : b ∈ (a :: l).filter fun a => key a = key b := by
    rw [hsame]
    exact List.mem_filter.mpr ⟨hb, decide_eq_true rfl⟩
  rcases List.mem_cons.mp (List.mem_filter.mp hmem).1 with rfl | hlater
  · exact Std.le_refl _
  · exact (List.pairwise_cons.mp hsorted).1 b hlater

/-- Two sorted lists with the same elements of each key, in the same order, are the same. -/
theorem eq_of_filter_eq (hsorted : l.Pairwise fun a b => key a ≤ key b)
    (hsorted' : l'.Pairwise fun a b => key a ≤ key b)
    (hsame : ∀ c, (l.filter fun a => key a = key c) = l'.filter fun a => key a = key c) :
    l = l' := by
  induction l generalizing l' with
  | nil =>
    cases l' with
    | nil => rfl
    | cons b l' => simpa using hsame b
  | cons a l ih =>
    cases l' with
    | nil => simpa using hsame a
    | cons b l' =>
      -- each head is in the other list, so they have one key, and each is the first of it
      have hkey : key a = key b :=
        Std.le_antisymm (key_le_of_filter_eq hsorted hsame List.mem_cons_self)
          (key_le_of_filter_eq hsorted' (fun c => (hsame c).symm) List.mem_cons_self)
      obtain rfl : a = b := by
        have hhead := congrArg List.head? (hsame a)
        simpa [hkey] using hhead
      have hrest (c : α) : (l.filter fun a => key a = key c) = l'.filter fun a => key a = key c := by
        have hc := hsame c
        rw [List.filter_cons, List.filter_cons] at hc
        split at hc
        · exact (List.cons.inj hc).2
        · exact hc
      rw [ih (List.pairwise_cons.mp hsorted).2 (List.pairwise_cons.mp hsorted').2 hrest]

end Sorting

section MergeSort

variable {α κ : Type} [LE κ] [Std.IsLinearOrder κ] [DecidableLE κ] (key : α → κ) (l : List α)

theorem pairwise_le_mergeSort :
    (l.mergeSort fun a b => key a ≤ key b).Pairwise fun a b => key a ≤ key b := by
  have hsorted : (l.mergeSort fun a b => key a ≤ key b).Pairwise fun a b =>
      decide (key a ≤ key b) = true :=
    List.pairwise_mergeSort (by simpa using fun a b c => Std.le_trans)
      (by simpa using fun a b => Std.le_total) l
  exact hsorted.imp of_decide_eq_true

variable [DecidableEq κ]

/-- Sorting by a key leaves the elements of one key in the order in which they are. -/
theorem filter_mergeSort (k : κ) :
    (l.mergeSort fun a b => key a ≤ key b).filter (fun a => key a = k) =
      l.filter fun a => key a = k := by
  have hpairs : (l.filter fun a => key a = k).Pairwise fun a b =>
      decide (key a ≤ key b) = true := by
    refine List.pairwise_iff_forall_sublist.mpr fun {a b} hab => ?_
    have ha : key a = k := by simpa using (List.mem_filter.mp (hab.subset (by simp))).2
    have hb : key b = k := by simpa using (List.mem_filter.mp (hab.subset (by simp))).2
    simp [ha, hb, Std.le_refl]
  have hsub : (l.filter fun a => key a = k).Sublist
      ((l.mergeSort fun a b => key a ≤ key b).filter fun a => key a = k) := by
    have hfilter := (List.sublist_mergeSort (by simpa using fun a b c => Std.le_trans)
      (by simpa using fun a b => Std.le_total) hpairs List.filter_sublist).filter
        fun a => decide (key a = k)
    simpa [List.filter_filter] using hfilter
  have hlength := ((List.mergeSort_perm l fun a b => key a ≤ key b).filter
    fun a => decide (key a = k)).length_eq
  exact (hsub.eq_of_length hlength.symm).symm

variable {key l}

/-- Sorting makes the key come first and the order before come second. -/
theorem pairwise_mergeSort_of_pairwise {rel : α → α → Prop} (h : l.Pairwise rel) :
    (l.mergeSort fun a b => key a ≤ key b).Pairwise fun a b =>
      key a ≤ key b ∧ (key a = key b → rel a b) := by
  refine List.pairwise_iff_forall_sublist.mpr fun {a b} hab => ⟨?_, fun heq => ?_⟩
  · exact List.pairwise_iff_forall_sublist.mp (pairwise_le_mergeSort key l) hab
  · have hsame := hab.filter fun c => decide (key c = key a)
    rw [filter_mergeSort] at hsame
    have hbefore : [a, b].Sublist l := by simpa [heq] using hsame.trans List.filter_sublist
    exact List.pairwise_iff_forall_sublist.mp h hbefore

/-- A sorted list that has the elements of each key as they are in another list is the other list,
sorted. -/
theorem eq_mergeSort_of_filter_eq {l' : List α} (hsorted : l'.Pairwise fun a b => key a ≤ key b)
    (hsame : ∀ c, (l'.filter fun a => key a = key c) = l.filter fun a => key a = key c) :
    l' = l.mergeSort fun a b => key a ≤ key b := by
  refine eq_of_filter_eq hsorted (pairwise_le_mergeSort key l) fun c => ?_
  rw [hsame, filter_mergeSort]

end MergeSort
end Namespacer
