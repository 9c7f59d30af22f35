import Namespacer.Import.PathForm
import Namespacer.Proofs.Path.Target

/-! A specifier is completed once and for all: with an ending it has its full form, whatever is
found on disk. -/
namespace Namespacer

open Text

/-! Endings through cutting, resolving and joining. -/

theorem exists_split_append {ending : Text} (h : '/' ∉ ending) (t : Text) :
    ∃ init last, split '/' t = init ++ [last] ∧
      split '/' (t ++ ending) = init ++ [last ++ ending] := by
  induction t with
  | nil => exact ⟨[], [], rfl, split_of_not_mem h⟩
  | cons c t ih =>
    obtain ⟨init, last, hsplit, hsplit'⟩ := ih
    unfold split at hsplit hsplit' ⊢
    rw [List.cons_append, splitBy, splitBy, hsplit, hsplit']
    split
    · exact ⟨[] :: init, last, rfl, rfl⟩
    · cases init with
      | nil => exact ⟨[], c :: last, rfl, rfl⟩
      | cons piece init => exact ⟨(c :: piece) :: init, last, rfl, rfl⟩

theorem Leads.exists_eq_append {dir segments target : List Text} {name : Text}
    (h : Leads dir (segments ++ [name]) target) (hname : IsName name) :
    ∃ init, target = init ++ [name] := by
  induction segments generalizing dir with
  | nil =>
    cases h with
    | stay hstay => exact absurd hstay (by simp [hname.1, hname.2.1])
    | up => exact absurd rfl hname.2.2
    | down _ hrest =>
      have htarget : resolveFrom (dir ++ [name]).reverse [] = some target := hrest.resolveFrom_eq
      rw [resolveFrom, List.reverse_reverse, Option.some.injEq] at htarget
      exact ⟨dir, htarget.symm⟩
  | cons segment segments ih =>
    cases h with
    | stay _ hrest => exact ih hrest
    | up hrest => exact ih hrest
    | down _ hrest => exact ih hrest

theorem isName_append_extension (s : Text) : IsName (s ++ Ending.extension.text) := by
  refine ⟨by simp [Ending.text], fun heq => ?_, fun heq => ?_⟩
  · simpa [Ending.text] using congrArg List.getLast? heq
  · simpa [Ending.text] using congrArg List.getLast? heq

theorem suffix_join (sep : Char) (init : List Text) (last : Text) :
    last <:+ join sep (init ++ [last]) := by
  induction init with
  | nil => simp [join]
  | cons piece init ih =>
    obtain ⟨next, rest, hrest⟩ : ∃ next rest, init ++ [last] = next :: rest := by
      cases init with
      | nil => exact ⟨last, [], rfl⟩
      | cons next init => exact ⟨next, init ++ [last], rfl⟩
    rw [List.cons_append, hrest, join, List.intercalate_cons_cons, ← join, ← hrest]
    exact ih.trans (List.suffix_append _ _)

namespace Site

theorem suffix_of_spelled? {site : Site} {specifier path : Text}
    (h : site.spelled? (specifier ++ Ending.extension.text) = some path) :
    Ending.extension.text <:+ path := by
  have hself : Ending.extension.text <:+ specifier ++ Ending.extension.text :=
    List.suffix_append _ _
  unfold spelled? at h
  split at h
  · cases h
    split
    · exact hself
    · exact hself.trans (List.suffix_append_of_suffix (List.suffix_cons _ _))
  · rw [after?_eq_some_iff] at h
    -- the alias of the root is too short to reach into the ending
    match specifier, h with
    | [], h => simp [Ending.text] at h
    | [a], h => simp [Ending.text] at h
    | a :: b :: rest, h =>
      obtain ⟨-, hrest⟩ := List.cons.inj h
      obtain ⟨-, rfl⟩ := List.cons.inj hrest
      exact List.suffix_append _ _

theorem isDirectory_resolve (site : Site) (specifier : Text) :
    (site.resolve (specifier ++ Ending.slash.text)).isDirectory = true := by
  have hself : endsWith (specifier ++ Ending.slash.text) ['/'] = true :=
    endsWith_iff.mpr (List.suffix_append _ _)
  unfold resolve
  split
  · exact hself
  · next segments _ =>
    rw [hself]
    cases segments with
    | nil => rfl
    | cons s segments => exact endsWith_iff.mpr (List.suffix_append _ _)

theorem namesFile_resolve (site : Site) (specifier : Text) :
    (site.resolve (specifier ++ Ending.extension.text)).namesFile = true := by
  have hfile {path : Text} (h : Ending.extension.text <:+ path) :
      (⟨path⟩ : ModulePath).namesFile = true :=
    List.any_eq_true.mpr ⟨_, List.mem_cons_self, endsWith_iff.mpr h⟩
  unfold resolve
  split
  · exact hfile (List.suffix_append _ _)
  · next segments htarget =>
    obtain ⟨path, hpath, hsegments⟩ := Option.bind_eq_some_iff.mp htarget
    obtain ⟨rest, rfl⟩ := suffix_of_spelled? hpath
    have hending : '/' ∉ Ending.extension.text := by decide
    obtain ⟨init, last, -, hsplit⟩ := exists_split_append hending rest
    rw [hsplit] at hsegments
    obtain ⟨init', rfl⟩ :=
      (leads_of_resolveFrom hsegments).exists_eq_append (isName_append_extension last)
    have hslash : endsWith (specifier ++ Ending.extension.text) ['/'] = false := by
      rw [← Bool.not_eq_true, endsWith_iff]
      rintro ⟨u, hu⟩
      simpa [Ending.text] using congrArg List.getLast? hu
    rw [hslash, Bool.false_and, if_neg Bool.false_ne_true]
    dsimp only
    rw [List.append_nil]
    exact hfile ((List.suffix_append _ _).trans
      ((suffix_join '/' init' _).trans (List.suffix_append _ _)))

theorem formOf_append (site : Site) (probe : Probe) (specifier : Text) (ending : Ending) :
    site.formOf probe (specifier ++ ending.text) = .complete := by
  unfold formOf
  cases ending with
  | slash => simp [isDirectory_resolve]
  | extension => simp [namesFile_resolve]

/-- A completed specifier lacks nothing. -/
theorem formOf_completed (site : Site) (probe : Probe) (specifier : Text) (ending : Ending) :
    site.formOf probe (site.completed probe specifier) ≠ .lacks ending := by
  unfold completed
  split
  · rw [formOf_append]
    simp
  · next h => exact h ending

theorem completed_completed (site : Site) (probe : Probe) (specifier : Text) :
    site.completed probe (site.completed probe specifier) = site.completed probe specifier := by
  rw [completed]
  split
  · next ending h => exact absurd h (site.formOf_completed probe specifier ending)
  · rfl

/-- What is completed is a local specifier. -/
theorem isLocal_of_lacks {site : Site} {probe : Probe} {specifier : Text} {ending : Ending}
    (h : site.formOf probe specifier = .lacks ending) :
    (site.resolve specifier).isLocal = true := by
  unfold formOf at h
  dsimp only at h
  split at h
  · contradiction
  · next hform =>
    simp only [Bool.or_eq_true, not_or, Bool.not_eq_true'] at hform
    simpa using hform.1.1

theorem starts_of_lacks {site : Site} {probe : Probe} {specifier : Text} {ending : Ending}
    (h : site.formOf probe specifier = .lacks ending) :
    ∃ c rest, specifier = c :: rest ∧ (c = '.' ∨ c = '$') := by
  have hlocal := isLocal_of_lacks h
  unfold resolve at hlocal
  split at hlocal
  · obtain ⟨rest, hrest⟩ := startsWith_iff.mp hlocal
    exact ⟨'.', _, hrest.symm, .inl rfl⟩
  · next htarget =>
    obtain ⟨path, hpath, -⟩ := Option.bind_eq_some_iff.mp htarget
    unfold spelled? at hpath
    split at hpath
    · next hstart =>
      rw [Bool.or_eq_true, startsWith_iff, startsWith_iff] at hstart
      rcases hstart with ⟨rest, hrest⟩ | ⟨rest, hrest⟩ <;>
        exact ⟨'.', _, hrest.symm, .inl rfl⟩
    · exact ⟨'$', _, after?_eq_some_iff.mp hpath, .inr rfl⟩

end Site
end Namespacer
