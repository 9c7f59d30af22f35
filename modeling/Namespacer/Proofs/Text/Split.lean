import Namespacer.Text.Basic

/-! Cutting a text at separators and putting the pieces together again, and the maximal runs of
characters between separators. -/
namespace Namespacer.Text

theorem splitBy_eq_splitOnP (sep : Char → Bool) (t : Text) : splitBy sep t = t.splitOnP sep := by
  induction t with
  | nil => rfl
  | cons c t ih =>
    rw [splitBy, ih, List.splitOnP_cons_eq_if_modifyHead]
    split
    · rfl
    · cases h : t.splitOnP sep with
      | nil => exact absurd h (List.splitOnP_ne_nil sep t)
      | cons piece pieces => rfl

theorem split_eq_splitOn (sep : Char) (t : Text) : split sep t = t.splitOn sep := by
  rw [split, splitBy_eq_splitOnP, List.splitOn_eq_splitOnP]

theorem split_ne_nil (sep : Char) (t : Text) : split sep t ≠ [] := by
  rw [split_eq_splitOn]
  exact List.splitOn_ne_nil sep t

theorem split_of_not_mem {sep : Char} {t : Text} (h : sep ∉ t) : split sep t = [t] := by
  rw [split_eq_splitOn, List.splitOn_eq_singleton h]

theorem split_append_cons (sep : Char) (s t : Text) :
    split sep (s ++ sep :: t) = split sep s ++ split sep t := by
  simp only [split_eq_splitOn, List.splitOn_append_cons_self]

theorem join_split (sep : Char) (t : Text) : join sep (split sep t) = t := by
  rw [split_eq_splitOn, join, List.intercalate_splitOn]

theorem split_join {sep : Char} {pieces : List Text} (h : ∀ piece ∈ pieces, sep ∉ piece)
    (hne : pieces ≠ []) : split sep (join sep pieces) = pieces := by
  rw [split_eq_splitOn, join, List.splitOn_intercalate sep h hne]

theorem not_mem_of_mem_split {sep : Char} {t piece : Text} (h : piece ∈ split sep t) :
    sep ∉ piece := by
  induction t generalizing piece with
  | nil =>
    rw [List.mem_singleton.mp h]
    exact List.not_mem_nil
  | cons c t ih =>
    rw [split, splitBy] at h
    split at h
    · rcases List.mem_cons.mp h with rfl | h
      · exact List.not_mem_nil
      · exact ih h
    · next hc =>
      have hne : c ≠ sep := by simpa using hc
      cases hpieces : split sep t with
      | nil => exact absurd hpieces (split_ne_nil sep t)
      | cons first pieces =>
        rw [split] at hpieces
        rw [hpieces] at h
        have hfirst : sep ∉ first := ih (by rw [split, hpieces]; exact List.mem_cons_self)
        rcases List.mem_cons.mp h with rfl | h
        · exact List.not_mem_cons_of_ne_of_not_mem hne.symm hfirst
        · exact ih (by rw [split, hpieces]; exact List.mem_cons_of_mem _ h)

/-! Runs. -/

/-- `runs` are the maximal runs of characters in a text that are no separators, in order: between
two of them, before the first and after the last stand separators only. -/
inductive HasRuns (sep : Char → Bool) : (t : Text) → (runs : List Text) → Prop where
  | none {gap : Text} (hgap : ∀ c ∈ gap, sep c = true) : HasRuns sep gap []
  | cons {gap run rest : Text} {runs : List Text} (hgap : ∀ c ∈ gap, sep c = true)
      (hne : run ≠ []) (hrun : ∀ c ∈ run, sep c = false) (hend : ∀ c ∈ rest.head?, sep c = true)
      (hrest : HasRuns sep rest runs) : HasRuns sep (gap ++ (run ++ rest)) (run :: runs)

theorem runs_cons_of_sep {sep : Char → Bool} {c : Char} (h : sep c = true) (t : Text) :
    runs sep (c :: t) = runs sep t := by
  simp [runs, splitBy, h]

theorem runs_append_of_sep {sep : Char → Bool} {gap : Text} (h : ∀ c ∈ gap, sep c = true)
    (t : Text) : runs sep (gap ++ t) = runs sep t := by
  induction gap with
  | nil => rfl
  | cons c gap ih =>
    obtain ⟨hc, hgap⟩ := List.forall_mem_cons.mp h
    rw [List.cons_append, runs_cons_of_sep hc, ih hgap]

theorem runs_run_append {sep : Char → Bool} {run rest : Text} (hne : run ≠ [])
    (hrun : ∀ c ∈ run, sep c = false) (hend : ∀ c ∈ rest.head?, sep c = true) :
    runs sep (run ++ rest) = run :: runs sep rest := by
  have hkeep : (!run.isEmpty) = true := by simpa using hne
  cases rest with
  | nil => simp [runs, splitBy_eq_splitOnP, List.splitOnP_eq_singleton hrun, hkeep]
  | cons c rest =>
    have hc : sep c = true := hend c rfl
    rw [runs_cons_of_sep hc, runs, splitBy_eq_splitOnP, List.splitOnP_append_cons run rest hc,
      List.splitOnP_eq_singleton hrun, List.filter_append, runs, splitBy_eq_splitOnP]
    simp [hkeep]

theorem HasRuns.eq_runs {sep : Char → Bool} {t : Text} {rs : List Text} (h : HasRuns sep t rs) :
    rs = runs sep t := by
  induction h with
  | @none gap hgap =>
    have hruns := runs_append_of_sep hgap []
    rw [List.append_nil] at hruns
    rw [hruns]
    rfl
  | @cons gap run rest rs hgap hne hrun hend hrest ih =>
    rw [runs_append_of_sep hgap, runs_run_append hne hrun hend, ih]

theorem HasRuns.cons_sep {sep : Char → Bool} {c : Char} {t : Text} {rs : List Text}
    (h : HasRuns sep t rs) (hc : sep c = true) : HasRuns sep (c :: t) rs := by
  cases h with
  | none hgap => exact .none (List.forall_mem_cons.mpr ⟨hc, hgap⟩)
  | cons hgap hne hrun hend hrest =>
    exact .cons (List.forall_mem_cons.mpr ⟨hc, hgap⟩) hne hrun hend hrest

/-- One more character in front makes the first run longer, or it is a run of its own. -/
theorem HasRuns.exists_cons {sep : Char → Bool} {c : Char} {t : Text} {rs : List Text}
    (h : HasRuns sep t rs) (hc : sep c = false) : ∃ rs', HasRuns sep (c :: t) rs' := by
  have halone (hend : ∀ d ∈ t.head?, sep d = true) : HasRuns sep (c :: t) ([c] :: rs) :=
    .cons (List.forall_mem_nil _) (List.cons_ne_nil c []) (by simpa using hc) hend h
  cases h with
  | none hgap => exact ⟨_, halone fun d hd => hgap d (List.mem_of_head? hd)⟩
  | @cons gap run rest rs hgap hne hrun hend hrest =>
    cases gap with
    | nil =>
      have hlonger : ∀ d ∈ c :: run, sep d = false := List.forall_mem_cons.mpr ⟨hc, hrun⟩
      exact ⟨_, .cons hgap (List.cons_ne_nil c run) hlonger hend hrest⟩
    | cons d gap => exact ⟨_, halone (by simpa using hgap d List.mem_cons_self)⟩

theorem exists_hasRuns (sep : Char → Bool) (t : Text) : ∃ rs, HasRuns sep t rs := by
  induction t with
  | nil => exact ⟨[], .none (by simp)⟩
  | cons c t ih =>
    obtain ⟨rs, hrs⟩ := ih
    cases hc : sep c with
    | true => exact ⟨rs, hrs.cons_sep hc⟩
    | false => exact hrs.exists_cons hc

theorem hasRuns_iff {sep : Char → Bool} {t : Text} {rs : List Text} :
    HasRuns sep t rs ↔ rs = runs sep t := by
  constructor
  · exact HasRuns.eq_runs
  · rintro rfl
    obtain ⟨rs, hrs⟩ := exists_hasRuns sep t
    exact hrs.eq_runs ▸ hrs

end Namespacer.Text
