import Namespacer.Proofs.Path.Climb

/-! Paths that a file at the root takes as they are. Every specifier resolves to such a path, so
resolving twice is the same as resolving once. -/
namespace Namespacer

open Text

namespace ModulePath

/-- Only the slash that asks for a directory stands at the end of a path made of names. -/
theorem endsWith_targetText {names : List Text} (h : ∀ s ∈ names, s ≠ [] ∧ '/' ∉ s)
    (hne : names ≠ []) (slash : Bool) :
    endsWith (localMarker ++ targetText names slash) ['/'] = slash := by
  have hslash : ∀ s ∈ names, '/' ∉ s := fun s hs => (h s hs).2
  rw [Bool.eq_iff_iff, endsWith_iff]
  constructor
  · rintro ⟨front, hfront⟩
    have hsplit := congrArg (split '/') hfront
    rw [split_append_cons, split_marker, split_targetText hslash hne] at hsplit
    cases slash with
    | true => rfl
    | false =>
      -- behind a slash at the end stands an empty segment, which is no name
      rw [if_neg Bool.false_ne_true, List.append_nil] at hsplit
      have hmem : [] ∈ ['.'] :: names := by
        rw [← hsplit]
        exact List.mem_append_right _ List.mem_cons_self
      have hempty : [] ∈ names := by simpa using hmem
      exact absurd rfl (h [] hempty).1
  · rintro rfl
    have hsome : names.isEmpty = false := by simpa using hne
    rw [targetText, hsome, ← List.append_assoc]
    exact List.suffix_append _ _

end ModulePath

namespace Site

variable {site site' : Site} {specifier : Text}

theorem isSome_spelled? (site site' : Site) (specifier : Text) :
    (site.spelled? specifier).isSome = (site'.spelled? specifier).isSome := by
  unfold spelled?
  split <;> rfl

theorem resolve_of_target?_eq_none (h : site.target? specifier = none) :
    site.resolve specifier = ⟨specifier⟩ := by
  rw [resolve, h]

theorem dirSegments_of_not_mem (h : '/' ∉ site.file) : site.dirSegments = [] := by
  rw [dirSegments, split_of_not_mem h]
  rfl

theorem isName_of_not_mem (h : '/' ∉ site.file) : ∀ s ∈ site.dirSegments, IsName s := by
  rw [dirSegments_of_not_mem h]
  exact List.forall_mem_nil _

/-- A path made of names leads from the root to the place that it names. -/
theorem leadsTo_targetText (hroot : '/' ∉ site.file) {names : List Text}
    (h : ∀ s ∈ names, IsName s ∧ '/' ∉ s) (slash : Bool) :
    site.LeadsTo (ModulePath.localMarker ++ targetText names slash) names := by
  refine .relative (.inl (List.prefix_append _ _)) ?_
  rw [dirSegments_of_not_mem hroot, ModulePath.split_marker]
  apply Leads.stay (.inr rfl)
  by_cases hnil : names = []
  · subst hnil
    cases slash <;> exact .stay (.inl rfl) .arrived
  · rw [split_targetText (fun s hs => (h s hs).2) hnil, leads_append_iff fun s hs => (h s hs).1]
    cases slash with
    | false => exact .arrived
    | true => exact .stay (.inl rfl) .arrived

theorem resolve_of_inside (hroot : '/' ∉ site.file) {p : ModulePath} (h : p.Inside) :
    site.resolve p.text = p := by
  obtain ⟨names, slash, hnames, rfl⟩ := h
  have hpieces : ∀ s ∈ names, s ≠ [] ∧ '/' ∉ s := fun s hs =>
    ⟨(hnames s hs).1.1, (hnames s hs).2⟩
  rw [resolve_of_leadsTo (isName_of_not_mem hroot) (leadsTo_targetText hroot hnames slash),
    ModulePath.mk.injEq, List.append_cancel_left_eq, targetText_eq_iff hpieces hpieces]
  exact ⟨rfl, fun hne => ModulePath.endsWith_targetText hpieces hne slash⟩

/-- From the root a path resolves to itself exactly if it is made of names or has no target. -/
theorem resolve_eq_self_iff (hroot : '/' ∉ site.file) {p : ModulePath} :
    site.resolve p.text = p ↔ p.Inside ∨ site.target? p.text = none := by
  constructor
  · intro hself
    cases htarget : site.target? p.text with
    | none => exact .inr rfl
    | some target =>
      have hdir := isName_of_not_mem hroot
      have hinside := ((target?_eq_some_iff hdir).mp htarget).inside hdir
      rw [hself] at hinside
      exact .inl hinside
  · rintro (hinside | hnone)
    · exact resolve_of_inside hroot hinside
    · exact resolve_of_target?_eq_none hnone

/-- A specifier without a target has none from the root either: who climbs out of the root from a
deep directory climbs out of it from the root. -/
theorem target?_eq_none_of_root (hdir : ∀ s ∈ site.dirSegments, IsName s)
    (hroot : '/' ∉ site'.file) (h : site.target? specifier = none) :
    site'.target? specifier = none := by
  rw [Option.eq_none_iff_forall_ne_some]
  intro target htarget
  have hdir' := isName_of_not_mem hroot
  apply ((target?_eq_some_iff hdir').mp htarget).not_climbsOut hdir'
  have hspelled : (site.spelled? specifier).isSome = true := by
    obtain ⟨path, hpath, -⟩ := Option.bind_eq_some_iff.mp htarget
    rw [isSome_spelled? site site', hpath]
    rfl
  cases (climbsOut_iff hdir).mpr ⟨hspelled, h⟩ with
  | relative hstart hclimbs =>
    apply ClimbsOut.relative hstart
    rw [dirSegments_of_not_mem hroot]
    exact hclimbs.from_root
  | fromRoot hclimbs => exact .fromRoot hclimbs

/-- Resolving what a specifier resolves to once more, from a file at the root, changes nothing. -/
theorem resolve_resolve (hdir : ∀ s ∈ site.dirSegments, IsName s) (hroot : '/' ∉ site'.file)
    (specifier : Text) :
    site'.resolve (site.resolve specifier).text = site.resolve specifier := by
  apply (resolve_eq_self_iff hroot).mpr
  cases htarget : site.target? specifier with
  | none =>
    rw [resolve_of_target?_eq_none htarget]
    exact .inr (target?_eq_none_of_root hdir hroot htarget)
  | some target => exact .inl (((target?_eq_some_iff hdir).mp htarget).inside hdir)

/-- From a deep directory a way up and down again, the root itself, and a way out of the root. -/
theorem resolve_resolve_deep :
    let site : Site := ⟨"/p".toList, "lib/api/users.js".toList⟩
    let site' : Site := ⟨"/q".toList, "x.js".toList⟩
    (∀ s ∈ site.dirSegments, IsName s) ∧ '/' ∉ site'.file ∧
      site.resolve ".././b//../c/".toList = ⟨"./lib/c/".toList⟩ ∧
      site'.resolve "./lib/c/".toList = ⟨"./lib/c/".toList⟩ ∧
      site.resolve "../..".toList = ⟨"./".toList⟩ ∧
      site'.resolve "./".toList = ⟨"./".toList⟩ ∧
      site.resolve "./../../../x".toList = ⟨"./../../../x".toList⟩ ∧
      site'.resolve "./../../../x".toList = ⟨"./../../../x".toList⟩ := by
  intro site site'
  have hdir : ∀ s ∈ site.dirSegments, IsName s := by
    have heq : site.dirSegments = ["lib".toList, "api".toList] := by decide +kernel
    simp [heq, IsName]
  have hroot : '/' ∉ site'.file := by decide +kernel
  have hc : site.resolve ".././b//../c/".toList = ⟨"./lib/c/".toList⟩ := by decide +kernel
  have hup : site.resolve "../..".toList = ⟨"./".toList⟩ := by decide +kernel
  have hout : site.resolve "./../../../x".toList = ⟨"./../../../x".toList⟩ := by decide +kernel
  refine ⟨hdir, hroot, hc, ?_, hup, ?_, hout, ?_⟩
  · have hagain := resolve_resolve hdir hroot ".././b//../c/".toList
    rwa [hc] at hagain
  · have hagain := resolve_resolve hdir hroot "../..".toList
    rwa [hup] at hagain
  · have hagain := resolve_resolve hdir hroot "./../../../x".toList
    rwa [hout] at hagain

end Site
end Namespacer
