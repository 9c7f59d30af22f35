import Namespacer.Path.Site
import Namespacer.Proofs.Text.Replace
import Namespacer.Proofs.Text.Split

/-! Where local specifiers lead. Two of them mean the same module exactly if they lead to the same
place below the root, and both or neither ask for a directory there. -/
namespace Namespacer

open Text

/-- A segment that goes down to an entry of a directory. -/
def IsName (segment : Text) : Prop := segment ≠ [] ∧ segment ≠ ['.'] ∧ segment ≠ ['.', '.']

/-- Segments lead from one directory below the root to another place. There is no way up from the
root. -/
inductive Leads : (dir segments target : List Text) → Prop where
  | arrived {dir : List Text} : Leads dir [] dir
  | stay {dir segments target : List Text} {segment : Text} (h : segment = [] ∨ segment = ['.'])
      (hrest : Leads dir segments target) : Leads dir (segment :: segments) target
  | up {dir segments target : List Text} {name : Text} (hrest : Leads dir segments target) :
      Leads (dir ++ [name]) (['.', '.'] :: segments) target
  | down {dir segments target : List Text} {name : Text} (h : IsName name)
      (hrest : Leads (dir ++ [name]) segments target) : Leads dir (name :: segments) target

theorem leads_of_resolveFrom {down segments target : List Text}
    (h : resolveFrom down segments = some target) : Leads down.reverse segments target := by
  induction segments generalizing down with
  | nil =>
    cases h
    exact .arrived
  | cons segment segments ih =>
    unfold resolveFrom at h
    split at h
    · next hstay => exact .stay hstay (ih h)
    · next hgo =>
      split at h
      · next hup =>
        subst hup
        split at h
        · contradiction
        · rw [List.reverse_cons]
          exact .up (ih h)
      · next hdown =>
        obtain ⟨hne, hdot⟩ := not_or.mp hgo
        have hrest := ih h
        rw [List.reverse_cons] at hrest
        exact .down ⟨hne, hdot, hdown⟩ hrest

theorem Leads.resolveFrom_eq {dir segments target : List Text} (h : Leads dir segments target) :
    resolveFrom dir.reverse segments = some target := by
  induction h with
  | arrived => rw [resolveFrom, List.reverse_reverse]
  | stay hstay _ ih =>
    unfold resolveFrom
    rw [if_pos hstay, ih]
  | up _ ih =>
    unfold resolveFrom
    rw [if_neg (by simp), if_pos rfl, List.reverse_append]
    exact ih
  | down hname _ ih =>
    unfold resolveFrom
    rw [if_neg (by simp [hname.1, hname.2.1]), if_neg hname.2.2]
    rw [List.reverse_append] at ih
    exact ih

theorem resolveFrom_eq_some_iff {dir segments target : List Text} :
    resolveFrom dir.reverse segments = some target ↔ Leads dir segments target := by
  refine ⟨fun h => ?_, Leads.resolveFrom_eq⟩
  have hleads := leads_of_resolveFrom h
  rwa [List.reverse_reverse] at hleads

/-- A directory is where its own segments lead from the root. -/
theorem leads_append_iff {dir names segments target : List Text} (h : ∀ s ∈ names, IsName s) :
    Leads dir (names ++ segments) target ↔ Leads (dir ++ names) segments target := by
  induction names generalizing dir with
  | nil => simp
  | cons name names ih =>
    obtain ⟨hname, hnames⟩ := List.forall_mem_cons.mp h
    have hcut : dir ++ name :: names = dir ++ [name] ++ names := by simp
    rw [List.cons_append, hcut, ← ih hnames]
    refine ⟨fun hleads => ?_, .down hname⟩
    cases hleads with
    | stay hstay => exact absurd hstay (by simp [hname.1, hname.2.1])
    | up => exact absurd rfl hname.2.2
    | down _ hrest => exact hrest

theorem exists_leads_of_append {dir front back target : List Text}
    (h : Leads dir (front ++ back) target) : ∃ mid, Leads dir front mid ∧ Leads mid back target := by
  induction front generalizing dir with
  | nil => exact ⟨dir, .arrived, h⟩
  | cons segment front ih =>
    cases h with
    | stay hstay hrest =>
      obtain ⟨mid, hfront, hback⟩ := ih hrest
      exact ⟨mid, .stay hstay hfront, hback⟩
    | up hrest =>
      obtain ⟨mid, hfront, hback⟩ := ih hrest
      exact ⟨mid, .up hfront, hback⟩
    | down hname hrest =>
      obtain ⟨mid, hfront, hback⟩ := ih hrest
      exact ⟨mid, .down hname hfront, hback⟩

theorem Leads.append {dir front mid back target : List Text} (h : Leads dir front mid)
    (h' : Leads mid back target) : Leads dir (front ++ back) target := by
  induction h with
  | arrived => exact h'
  | stay hstay _ ih => exact .stay hstay (ih h')
  | up _ ih => exact .up (ih h')
  | down hname _ ih => exact .down hname (ih h')

/-- What holds of the names gone through holds of those that are left. -/
theorem Leads.forall_mem {P : Text → Prop} {dir segments target : List Text}
    (h : Leads dir segments target) (hdir : ∀ s ∈ dir, P s)
    (hsegments : ∀ s ∈ segments, IsName s → P s) : ∀ s ∈ target, P s := by
  induction h with
  | arrived => exact hdir
  | stay _ _ ih => exact ih hdir (List.forall_mem_cons.mp hsegments).2
  | up _ ih =>
    exact ih (fun s hs => hdir s (by simp [hs])) (List.forall_mem_cons.mp hsegments).2
  | @down dir segments target name hname _ ih =>
    obtain ⟨hhere, hsegments⟩ := List.forall_mem_cons.mp hsegments
    refine ih (fun s hs => ?_) hsegments
    rcases List.mem_append.mp hs with hs | hs
    · exact hdir s hs
    · rw [List.mem_singleton.mp hs]
      exact hhere hname

/-! The directory of an importing file. -/

theorem join_cons_ne_nil {s : Text} (h : s ≠ []) (segments : List Text) :
    join '/' (s :: segments) ≠ [] := by
  cases segments <;> simp [join, List.intercalate_cons_cons, h]

namespace Site

def dirSegments (site : Site) : List Text := (split '/' site.file).dropLast

theorem dir_eq_join (site : Site) : site.dir = join '/' site.dirSegments := by
  have hcut := List.takeWhile_append_dropWhile (p := (· != '/')) (l := site.file.reverse)
  have htail : '/' ∉ site.file.reverse.takeWhile (· != '/') := by
    intro hmem
    simpa using List.all_eq_true.mp List.all_takeWhile _ hmem
  have hfile := congrArg List.reverse hcut
  rw [List.reverse_append, List.reverse_reverse] at hfile
  have hname : '/' ∉ (site.file.reverse.takeWhile (· != '/')).reverse := by simpa using htail
  cases hrest : site.file.reverse.dropWhile (· != '/') with
  | nil =>
    rw [hrest, List.reverse_nil, List.nil_append] at hfile
    rw [dir, hrest, dirSegments, ← hfile, split_of_not_mem hname]
    rfl
  | cons c rest =>
    have hc := List.head?_dropWhile_not (· != '/') site.file.reverse
    rw [hrest] at hc
    have hslash : c = '/' := by simpa using hc
    subst hslash
    rw [hrest, List.reverse_cons, List.append_assoc, List.singleton_append] at hfile
    rw [dir, hrest, dirSegments, ← hfile, split_append_cons, split_of_not_mem hname,
      List.dropLast_concat, join_split]
    rfl

theorem not_mem_of_mem_dirSegments {site : Site} {s : Text} (h : s ∈ site.dirSegments) :
    '/' ∉ s := not_mem_of_mem_split (List.dropLast_subset _ h)

/-! Where a specifier leads. -/

/-- Where a local specifier leads, segment by segment: `./` and `../` start at the importing file's
directory and `$/` at the root. -/
inductive LeadsTo (site : Site) : (specifier : Text) → (target : List Text) → Prop where
  | relative {specifier : Text} {target : List Text}
      (hstart : ['.', '/'] <+: specifier ∨ ['.', '.', '/'] <+: specifier)
      (h : Leads site.dirSegments (split '/' specifier) target) : LeadsTo site specifier target
  | fromRoot {rest : Text} {target : List Text} (h : Leads [] (split '/' rest) target) :
      LeadsTo site (['$', '/'] ++ rest) target

section Proper

variable {site : Site} (hdir : ∀ s ∈ site.dirSegments, IsName s)

include hdir

theorem resolveSegments_dir (specifier : Text) :
    resolveSegments (split '/' (if site.dir.isEmpty then specifier
      else site.dir ++ '/' :: specifier)) =
        resolveFrom site.dirSegments.reverse (split '/' specifier) := by
  rw [dir_eq_join]
  cases hsegments : site.dirSegments with
  | nil => rfl
  | cons s segments =>
    have hsome : (join '/' (s :: segments)).isEmpty = false := by
      simpa using join_cons_ne_nil (hdir s (by simp [hsegments])).1 segments
    have hslash : ∀ s' ∈ s :: segments, '/' ∉ s' := fun s' hs' =>
      not_mem_of_mem_dirSegments (hsegments ▸ hs')
    rw [hsome, if_neg Bool.false_ne_true, split_append_cons, split_join hslash (by simp)]
    have hleads (target : List Text) : Leads [] (s :: segments ++ split '/' specifier) target ↔
        Leads ([] ++ s :: segments) (split '/' specifier) target :=
      leads_append_iff (hsegments ▸ hdir)
    simp only [← resolveFrom_eq_some_iff, List.nil_append, List.reverse_nil] at hleads
    exact Option.ext hleads

theorem target?_eq_some_iff {specifier : Text} {target : List Text} :
    site.target? specifier = some target ↔ site.LeadsTo specifier target := by
  unfold target? spelled?
  split
  · next hstart =>
    rw [Bool.or_eq_true, startsWith_iff, startsWith_iff] at hstart
    rw [Option.bind_some, resolveSegments_dir hdir, resolveFrom_eq_some_iff]
    refine ⟨.relative hstart, fun h => ?_⟩
    cases h with
    | relative _ h => exact h
    | fromRoot h => rcases hstart with hstart | hstart <;> simp at hstart
  · next hstart =>
    rw [Bool.or_eq_true, startsWith_iff, startsWith_iff] at hstart
    simp only [Option.bind_eq_some_iff, after?_eq_some_iff]
    constructor
    · rintro ⟨rest, rfl, h⟩
      exact .fromRoot (leads_of_resolveFrom h)
    · intro h
      cases h with
      | relative hrelative => exact absurd hrelative hstart
      | fromRoot h => exact ⟨_, rfl, h.resolveFrom_eq⟩

theorem LeadsTo.forall_mem {specifier : Text} {target : List Text}
    (h : site.LeadsTo specifier target) : ∀ s ∈ target, s ≠ [] ∧ '/' ∉ s := by
  have hpieces (t : Text) : ∀ s ∈ split '/' t, IsName s → s ≠ [] ∧ '/' ∉ s :=
    fun s hs hname => ⟨hname.1, not_mem_of_mem_split hs⟩
  cases h with
  | relative _ h =>
    exact h.forall_mem (fun s hs => ⟨(hdir s hs).1, not_mem_of_mem_dirSegments hs⟩) (hpieces _)
  | fromRoot h => exact h.forall_mem (by simp) (hpieces _)

end Proper

end Site

/-! The path that a specifier resolves to. -/

/-- A place below the root as text; a final slash asks for a directory. -/
def targetText (target : List Text) (slash : Bool) : Text :=
  join '/' target ++ if slash && !target.isEmpty then ['/'] else []

theorem split_targetText {target : List Text} (hslash : ∀ s ∈ target, '/' ∉ s)
    (hne : target ≠ []) (slash : Bool) :
    split '/' (targetText target slash) = target ++ if slash then [[]] else [] := by
  have hsome : target.isEmpty = false := by simpa using hne
  rw [targetText, hsome, Bool.not_false, Bool.and_true]
  cases slash with
  | false => simp [split_join hslash hne]
  | true =>
    rw [if_pos rfl, if_pos rfl, split_append_cons, split_join hslash hne]
    rfl

theorem targetText_eq_nil_iff {target : List Text} (h : ∀ s ∈ target, s ≠ [] ∧ '/' ∉ s)
    (slash : Bool) : targetText target slash = [] ↔ target = [] := by
  cases target with
  | nil => simp [targetText, join]
  | cons s target =>
    have hne : join '/' (s :: target) ≠ [] := join_cons_ne_nil (h s List.mem_cons_self).1 target
    simp [targetText, hne]

theorem targetText_eq_iff {target target' : List Text} {slash slash' : Bool}
    (h : ∀ s ∈ target, s ≠ [] ∧ '/' ∉ s) (h' : ∀ s ∈ target', s ≠ [] ∧ '/' ∉ s) :
    targetText target slash = targetText target' slash' ↔
      target = target' ∧ (target ≠ [] → slash = slash') := by
  constructor
  · intro heq
    by_cases hnil : target = []
    · subst hnil
      have hnil' := heq.symm.trans ((targetText_eq_nil_iff h slash).mpr rfl)
      exact ⟨((targetText_eq_nil_iff h' slash').mp hnil').symm, fun hne => absurd rfl hne⟩
    · have hnil' : target' ≠ [] := fun hnil' =>
        hnil ((targetText_eq_nil_iff h slash).mp
          (heq.trans ((targetText_eq_nil_iff h' slash').mpr hnil')))
      have hsplit := congrArg (split '/') heq
      rw [split_targetText (fun s hs => (h s hs).2) hnil,
        split_targetText (fun s hs => (h' s hs).2) hnil'] at hsplit
      -- an empty segment at the end can only come from the slash
      have hmem : [] ∉ target := fun hmem => (h [] hmem).1 rfl
      have hmem' : [] ∉ target' := fun hmem => (h' [] hmem).1 rfl
      cases slash with
      | false =>
        cases slash' with
        | false => exact ⟨by simpa using hsplit, fun _ => rfl⟩
        | true =>
          rw [if_neg Bool.false_ne_true, if_pos rfl, List.append_nil] at hsplit
          exact absurd (by simp [hsplit]) hmem
      | true =>
        cases slash' with
        | false =>
          rw [if_neg Bool.false_ne_true, if_pos rfl, List.append_nil] at hsplit
          exact absurd (by simp [← hsplit]) hmem'
        | true => exact ⟨List.append_cancel_right hsplit, fun _ => rfl⟩
  · rintro ⟨rfl, hslash⟩
    by_cases hnil : target = []
    · simp [targetText, hnil]
    · rw [hslash hnil]

namespace Site

theorem resolve_of_leadsTo {site : Site} (hdir : ∀ s ∈ site.dirSegments, IsName s)
    {specifier : Text} {target : List Text} (h : site.LeadsTo specifier target) :
    site.resolve specifier =
      ⟨ModulePath.localMarker ++ targetText target (endsWith specifier ['/'])⟩ := by
  rw [resolve, (target?_eq_some_iff hdir).mpr h]
  simp [targetText]

/-- Specifiers that lead somewhere below the root mean the same module exactly if they lead to the
same place and, unless that is the root itself, both or neither end in a slash. -/
theorem resolve_eq_resolve_iff {site site' : Site} (hdir : ∀ s ∈ site.dirSegments, IsName s)
    (hdir' : ∀ s ∈ site'.dirSegments, IsName s) {specifier specifier' : Text}
    {target target' : List Text} (h : site.LeadsTo specifier target)
    (h' : site'.LeadsTo specifier' target') :
    site.resolve specifier = site'.resolve specifier' ↔
      target = target' ∧ (target ≠ [] → (['/'] <:+ specifier ↔ ['/'] <:+ specifier')) := by
  rw [resolve_of_leadsTo hdir h, resolve_of_leadsTo hdir' h', ModulePath.mk.injEq,
    List.append_cancel_left_eq, targetText_eq_iff (h.forall_mem hdir) (h'.forall_mem hdir'),
    Bool.eq_iff_iff, endsWith_iff, endsWith_iff]

/-- A directory by a path that goes up, and the file of the same name by the alias of the root. -/
theorem resolve_eq_resolve_iff_slash :
    let site : Site := ⟨[], "lib/api/users.js".toList⟩
    let site' : Site := ⟨[], "bin/cli.js".toList⟩
    site.LeadsTo "..//./models/user/".toList ["lib".toList, "models".toList, "user".toList] ∧
      site'.LeadsTo "$/lib/models/user".toList ["lib".toList, "models".toList, "user".toList] ∧
      site.resolve "..//./models/user/".toList ≠ site'.resolve "$/lib/models/user".toList := by
  intro site site'
  have hdir : ∀ s ∈ site.dirSegments, IsName s := by
    have heq : site.dirSegments = ["lib".toList, "api".toList] := by decide +kernel
    simp [heq, IsName]
  have hdir' : ∀ s ∈ site'.dirSegments, IsName s := by
    have heq : site'.dirSegments = ["bin".toList] := by decide +kernel
    simp [heq, IsName]
  have h : site.LeadsTo "..//./models/user/".toList
      ["lib".toList, "models".toList, "user".toList] :=
    (target?_eq_some_iff hdir).mp (by decide +kernel)
  have h' : site'.LeadsTo "$/lib/models/user".toList
      ["lib".toList, "models".toList, "user".toList] :=
    (target?_eq_some_iff hdir').mp (by decide +kernel)
  refine ⟨h, h', fun heq => ?_⟩
  have hslash := ((resolve_eq_resolve_iff hdir hdir' h h').mp heq).2 (by simp)
  revert hslash
  decide +kernel

end Site
end Namespacer
