import Namespacer.Proofs.Path.Form

/-! Specifiers that climb above the root. A path made of names alone stays below the root, wherever
that is. A specifier that climbs out resolves to itself, and if it begins with `./` it passes for a
local path all the same: such a path leads outside. -/
namespace Namespacer

open Text

/-- Segments lead out of the root by a way up that is not there. -/
inductive Climbs : (dir segments : List Text) → Prop where
  | out {segments : List Text} : Climbs [] (['.', '.'] :: segments)
  | stay {dir segments : List Text} {segment : Text} (h : segment = [] ∨ segment = ['.'])
      (hrest : Climbs dir segments) : Climbs dir (segment :: segments)
  | up {dir segments : List Text} {name : Text} (hrest : Climbs dir segments) :
      Climbs (dir ++ [name]) (['.', '.'] :: segments)
  | down {dir segments : List Text} {name : Text} (h : IsName name)
      (hrest : Climbs (dir ++ [name]) segments) : Climbs dir (name :: segments)

theorem climbs_of_resolveFrom {down segments : List Text}
    (h : resolveFrom down segments = none) : Climbs down.reverse segments := by
  induction segments generalizing down with
  | nil => contradiction
  | cons segment segments ih =>
    unfold resolveFrom at h
    split at h
    · next hstay => exact .stay hstay (ih h)
    · next hgo =>
      split at h
      · next hup =>
        subst hup
        split at h
        · exact .out
        · rw [List.reverse_cons]
          exact .up (ih h)
      · next hdown =>
        obtain ⟨hne, hdot⟩ := not_or.mp hgo
        have hrest := ih h
        rw [List.reverse_cons] at hrest
        exact .down ⟨hne, hdot, hdown⟩ hrest

namespace Climbs

variable {dir segments : List Text}

theorem resolveFrom_eq (h : Climbs dir segments) : resolveFrom dir.reverse segments = none := by
  induction h with
  | out => rfl
  | stay hstay _ ih =>
    unfold resolveFrom
    rw [if_pos hstay, ih]
  | up _ ih =>
    unfold resolveFrom
    rw [if_neg (by simp), if_pos rfl, List.reverse_append]
    exact ih
  | down hname _ ih =>
    unfold resolveFrom
    rw [if_neg (by simp [hname.1, hname.2.1]), if_neg hname.2.2]
    rw [List.reverse_append] at ih
    exact ih

theorem mem (h : Climbs dir segments) : ['.', '.'] ∈ segments := by
  induction h with
  | out => exact List.mem_cons_self
  | up => exact List.mem_cons_self
  | stay _ _ ih => exact List.mem_cons_of_mem _ ih
  | down _ _ ih => exact List.mem_cons_of_mem _ ih

/-- Who climbs out from further down climbs out from higher up. -/
theorem of_append {above : List Text} (h : Climbs (above ++ dir) segments) :
    Climbs dir segments := by
  generalize hfrom : above ++ dir = start at h
  induction h generalizing dir with
  | out =>
    obtain ⟨-, rfl⟩ := List.append_eq_nil_iff.mp hfrom
    exact .out
  | stay hstay _ ih => exact .stay hstay (ih hfrom)
  | @up start segments name _ ih =>
    rcases List.eq_nil_or_concat dir with rfl | ⟨dir, last, rfl⟩
    · exact .out
    · rw [List.concat_eq_append, ← List.append_assoc] at hfrom
      rw [List.concat_eq_append]
      obtain ⟨hstart, -⟩ := List.append_inj' hfrom rfl
      exact .up (ih hstart)
  | @down start segments name hname _ ih =>
    exact .down hname (ih (by rw [← List.append_assoc, hfrom]))

theorem from_root (h : Climbs dir segments) : Climbs [] segments := by
  rw [← List.append_nil dir] at h
  exact h.of_append

end Climbs

/-- Segments lead to a place below the root or out of it. -/
theorem climbs_iff {dir segments : List Text} :
    Climbs dir segments ↔ ∀ target, ¬ Leads dir segments target := by
  constructor
  · intro h target hleads
    rw [← resolveFrom_eq_some_iff, h.resolveFrom_eq] at hleads
    contradiction
  · intro h
    have hnone : resolveFrom dir.reverse segments = none := by
      rw [Option.eq_none_iff_forall_ne_some]
      intro target htarget
      exact h target (resolveFrom_eq_some_iff.mp htarget)
    have hclimbs := climbs_of_resolveFrom hnone
    rwa [List.reverse_reverse] at hclimbs

/-- What counts for nothing leads nowhere. -/
theorem leads_filter_iff {dir segments target : List Text} :
    Leads dir (segments.filter fun piece => !PathText.isVoid piece) target ↔
      Leads dir segments target := by
  have hvoid {segment : Text} :
      PathText.isVoid segment = true ↔ segment = [] ∨ segment = ['.'] := by
    simp [PathText.isVoid]
  constructor
  · induction segments generalizing dir with
    | nil => exact id
    | cons segment segments ih =>
      rw [List.filter_cons]
      split
      · intro h
        cases h with
        | stay hstay hrest => exact .stay hstay (ih hrest)
        | up hrest => exact .up (ih hrest)
        | down hname hrest => exact .down hname (ih hrest)
      · next hnot => exact fun h => .stay (hvoid.mp (by simpa using hnot)) (ih h)
  · intro h
    induction h with
    | arrived => exact .arrived
    | stay hstay _ ih => rwa [List.filter_cons_of_neg (by simp [hvoid.mpr hstay])]
    | up _ ih =>
      rw [List.filter_cons_of_pos (by rfl)]
      exact .up ih
    | @down dir segments target name hname _ ih =>
      have hkept : PathText.isVoid name = false := by
        rw [← Bool.not_eq_true, hvoid]
        simp [hname.1, hname.2.1]
      rw [List.filter_cons_of_pos (by simp [hkept])]
      exact .down hname ih

theorem climbs_filter_iff {dir segments : List Text} :
    Climbs dir (segments.filter fun piece => !PathText.isVoid piece) ↔ Climbs dir segments := by
  simp only [climbs_iff, leads_filter_iff]

/-! Places below a root. -/

namespace PathText

/-- A place that is reached from a root by segments that do not lead above it. -/
def Within (root location : Text) : Prop :=
  ∃ segments target, (∀ s ∈ segments, '/' ∉ s) ∧ Leads [] segments target ∧
    location = segments.foldl join root

theorem within_of_names (root : Text) {names : List Text} (h : ∀ s ∈ names, IsName s ∧ '/' ∉ s) :
    Within root (names.foldl join root) := by
  have hleads : Leads [] (names ++ []) ([] ++ names) :=
    (leads_append_iff fun s hs => (h s hs).1).mpr .arrived
  rw [List.append_nil] at hleads
  exact ⟨names, _, fun s hs => (h s hs).2, hleads, rfl⟩

theorem names_append_cons (front : Text) {s : Text} (h : '/' ∉ s) :
    names (front ++ '/' :: s) = names front ++ [s].filter fun piece => !isVoid piece := by
  rw [names, split_append_cons, split_of_not_mem h, List.filter_append, names]

theorem names_append_slashes (front : Text) {slashes : Text} (h : ∀ c ∈ slashes, c = '/') :
    names (front ++ slashes) = names front := by
  induction slashes generalizing front with
  | nil => rw [List.append_nil]
  | cons c slashes ih =>
    obtain ⟨rfl, hslashes⟩ := List.forall_mem_cons.mp h
    rw [List.append_cons, ih _ hslashes, names_append_cons front List.not_mem_nil]
    exact List.append_nil _

theorem isAbsolute_eq_false {s : Text} (h : '/' ∉ s) : isAbsolute s = false := by
  rw [isAbsolute, ← Bool.not_eq_true, startsWith_iff]
  rintro ⟨rest, rfl⟩
  simp at h

theorem join_append {s t : Text} (h : '/' ∉ s ++ t) (base : Text) :
    join base (s ++ t) = join base s ++ t := by
  unfold join
  rw [isAbsolute_eq_false h, isAbsolute_eq_false fun hmem => h (List.mem_append_left t hmem)]
  split
  · contradiction
  · split <;> simp

theorem names_join (base : Text) {s : Text} (h : '/' ∉ s) :
    names (join base s) = names base ++ [s].filter fun piece => !isVoid piece := by
  unfold join
  rw [isAbsolute_eq_false h, if_neg Bool.false_ne_true]
  split
  · next hend =>
    rw [Bool.or_eq_true, List.isEmpty_iff, endsWith_iff] at hend
    rcases hend with rfl | ⟨front, rfl⟩
    · rw [List.nil_append, names, split_of_not_mem h]
      rfl
    · rw [names_append_slashes front (by simp), List.append_assoc, List.singleton_append]
      exact names_append_cons front h
  · exact names_append_cons base h

theorem names_foldl_join (root : Text) {segments : List Text} (h : ∀ s ∈ segments, '/' ∉ s) :
    names (segments.foldl join root) =
      names root ++ segments.filter fun piece => !isVoid piece := by
  induction segments generalizing root with
  | nil => simp
  | cons s segments ih =>
    obtain ⟨hs, hsegments⟩ := List.forall_mem_cons.mp h
    rw [List.foldl_cons, ih _ hsegments, names_join root hs, List.append_assoc,
      ← List.filter_append, List.singleton_append]

/-- Segments that lead out of a root lead to no place below it. -/
theorem not_within_of_climbs (root : Text) {segments : List Text}
    (h : ∀ s ∈ segments, '/' ∉ s) (hclimbs : Climbs [] segments) :
    ¬ Within root (segments.foldl join root) := by
  rintro ⟨others, target, hothers, hleads, heq⟩
  have hnames := congrArg names heq
  rw [names_foldl_join root h, names_foldl_join root hothers, List.append_cancel_left_eq] at hnames
  rw [← leads_filter_iff, ← hnames, leads_filter_iff] at hleads
  exact climbs_iff.mp hclimbs target hleads

theorem names_dropEndWhile (t : Text) : names (dropEndWhile (· == '/') t) = names t := by
  have hcut := congrArg List.reverse
    (List.takeWhile_append_dropWhile (p := (· == '/')) (l := t.reverse))
  rw [List.reverse_append, List.reverse_reverse] at hcut
  have hslashes : ∀ c ∈ (t.reverse.takeWhile (· == '/')).reverse, c = '/' := by
    intro c hc
    simpa using List.all_eq_true.mp List.all_takeWhile c (List.mem_reverse.mp hc)
  calc names (dropEndWhile (· == '/') t)
      = names (dropEndWhile (· == '/') t ++ (t.reverse.takeWhile (· == '/')).reverse) :=
        (names_append_slashes _ hslashes).symm
    _ = names t := by rw [dropEndWhile, hcut]

end PathText

namespace ModulePath

/-- A local path made of names alone, with or without a final slash. -/
def Inside (p : ModulePath) : Prop :=
  ∃ (names : List Text) (slash : Bool), (∀ s ∈ names, IsName s ∧ '/' ∉ s) ∧
    p = ⟨localMarker ++ targetText names slash⟩

theorem split_marker (rest : Text) : split '/' (localMarker ++ rest) = ['.'] :: split '/' rest :=
  split_append_cons '/' ['.'] rest

theorem dropEndWhile_targetText {names : List Text} (h : ∀ s ∈ names, s ≠ [] ∧ '/' ∉ s)
    (slash : Bool) : dropEndWhile (· == '/') (targetText names slash) = join '/' names := by
  rcases List.eq_nil_or_concat names with rfl | ⟨init, last, rfl⟩
  · cases slash <;> rfl
  · rw [List.concat_eq_append] at h ⊢
    obtain ⟨hne, hslash⟩ := h last (by simp)
    obtain ⟨last', c, rfl⟩ := List.eq_nil_or_concat last |>.resolve_left hne
    rw [List.concat_eq_append] at hslash ⊢
    obtain ⟨front, hfront⟩ := suffix_join '/' init (last' ++ [c])
    have hc : (c == '/') = false := by
      rw [beq_eq_false_iff_ne]
      rintro rfl
      exact hslash (by simp)
    have hkept : dropEndWhile (· == '/') (front ++ (last' ++ [c])) = front ++ (last' ++ [c]) := by
      rw [dropEndWhile, ← List.append_assoc, List.reverse_append]
      simp [hc]
    have hcut : dropEndWhile (· == '/') (front ++ (last' ++ [c]) ++ ['/']) =
        dropEndWhile (· == '/') (front ++ (last' ++ [c])) := by
      rw [dropEndWhile, List.reverse_append, List.reverse_singleton, List.singleton_append,
        List.dropWhile_cons_of_pos (by simp), dropEndWhile]
    rw [targetText, ← hfront]
    split
    · rw [hcut, hkept]
    · rw [List.append_nil, hkept]

theorem location?_eq {rest : Text} (hne : dropEndWhile (· == '/') rest ≠ []) (root : Text) :
    (⟨localMarker ++ rest⟩ : ModulePath).location? root =
      some ((split '/' (dropEndWhile (· == '/') rest)).foldl PathText.join root) := by
  have hafter : after? localMarker (localMarker ++ rest) = some rest :=
    after?_eq_some_iff.mpr rfl
  rw [ModulePath.location?, hafter, Option.map_some]
  generalize dropEndWhile (· == '/') rest = path at hne ⊢
  cases path with
  | nil => contradiction
  | cons c path => rfl

theorem location?_targetText {names : List Text} (h : ∀ s ∈ names, IsName s ∧ '/' ∉ s)
    (slash : Bool) (root : Text) :
    (⟨localMarker ++ targetText names slash⟩ : ModulePath).location? root =
      some (names.foldl PathText.join root) := by
  cases names with
  | nil => cases slash <;> rfl
  | cons s names =>
    have hpieces : ∀ s' ∈ s :: names, s' ≠ [] ∧ '/' ∉ s' := fun s' hs' =>
      ⟨(h s' hs').1.1, (h s' hs').2⟩
    have hpath := dropEndWhile_targetText hpieces slash
    have hne := join_cons_ne_nil (hpieces s List.mem_cons_self).1 names
    rw [location?_eq (by rwa [hpath]), hpath,
      split_join (fun s' hs' => (hpieces s' hs').2) (List.cons_ne_nil s names)]

namespace Inside

variable {p : ModulePath}

theorem location? (h : p.Inside) (root : Text) :
    ∃ location, p.location? root = some location ∧ PathText.Within root location := by
  obtain ⟨names, slash, hnames, rfl⟩ := h
  exact ⟨_, location?_targetText hnames slash root, PathText.within_of_names root hnames⟩

/-- A file is looked for below the root as well. -/
theorem location?_file (h : p.Inside) (hfile : p.isDirectory = false) (root : Text) :
    ∃ location, p.location? root = some location ∧ PathText.Within root location ∧
      PathText.Within root (location ++ Ending.extension.text) := by
  obtain ⟨names, slash, hnames, rfl⟩ := h
  refine ⟨_, location?_targetText hnames slash root, PathText.within_of_names root hnames, ?_⟩
  rcases List.eq_nil_or_concat names with rfl | ⟨init, last, rfl⟩
  · cases slash <;> contradiction
  · rw [List.concat_eq_append] at hnames ⊢
    obtain ⟨hinit, hlast⟩ := List.forall_mem_append.mp hnames
    obtain ⟨-, hslash⟩ := hlast last (by simp)
    have hextended : '/' ∉ last ++ Ending.extension.text := by simp [hslash, Ending.text]
    have hnames' : ∀ s ∈ init ++ [last ++ Ending.extension.text], IsName s ∧ '/' ∉ s :=
      List.forall_mem_append.mpr ⟨hinit,
        List.forall_mem_singleton.mpr ⟨isName_append_extension last, hextended⟩⟩
    have hwithin := PathText.within_of_names root hnames'
    rw [List.foldl_append, List.foldl_cons, List.foldl_nil, PathText.join_append hextended]
      at hwithin
    rwa [List.foldl_append, List.foldl_cons, List.foldl_nil]

theorem not_mem_split (h : p.Inside) : ['.', '.'] ∉ split '/' p.text := by
  obtain ⟨names, slash, hnames, rfl⟩ := h
  have hup : ['.', '.'] ∉ names := fun hmem => (hnames _ hmem).1.2.2 rfl
  rw [split_marker]
  cases names with
  | nil => cases slash <;> decide
  | cons s names =>
    rw [split_targetText (fun s hs => (hnames s hs).2) (List.cons_ne_nil s names)]
    cases slash <;> simpa using hup

theorem key (h : p.Inside) : p.key.Inside := by
  unfold ModulePath.key
  split
  · next dir hdir =>
    obtain ⟨names, slash, hnames, rfl⟩ := h
    have hsplit : ['.'] :: split '/' (targetText names slash) =
        split '/' dir ++ [indexFile.tail] := by
      have hcut := congrArg (split '/') (before?_eq_some_iff.mp hdir)
      have hindex : split '/' indexFile.tail = [indexFile.tail] := split_of_not_mem (by decide)
      rw [split_marker, indexFile, split_append_cons] at hcut
      rw [hcut, ← hindex]
      rfl
    -- the last segment is the index file, so neither a slash nor nothing
    rcases List.eq_nil_or_concat names with rfl | ⟨init, last, rfl⟩
    · have hlast := congrArg List.getLast? hsplit
      cases slash <;> simp [targetText, join, split, splitBy, indexFile] at hlast
    · rw [List.concat_eq_append] at hnames hsplit
      rw [split_targetText (fun s hs => (hnames s hs).2) (by simp)] at hsplit
      cases slash with
      | true =>
        rw [if_pos rfl, ← List.cons_append] at hsplit
        have hlast := (List.append_inj' hsplit rfl).2
        contradiction
      | false =>
        rw [if_neg Bool.false_ne_true, List.append_nil, ← List.cons_append] at hsplit
        obtain ⟨hinit, -⟩ := List.append_inj' hsplit rfl
        refine ⟨init, true, (List.forall_mem_append.mp hnames).1, ?_⟩
        rw [ModulePath.mk.injEq, ← join_split '/' dir, ← hinit]
        cases init with
        | nil => rfl
        | cons s init => simp [targetText, join, List.intercalate_cons_cons, localMarker]
  · exact h

end Inside
end ModulePath

/-! Where a local path leads. -/

namespace Site

/-- A local specifier climbs above the root: `./` and `../` start at the importing file's directory
and `$/` at the root. -/
inductive ClimbsOut (site : Site) : (specifier : Text) → Prop where
  | relative {specifier : Text}
      (hstart : ['.', '/'] <+: specifier ∨ ['.', '.', '/'] <+: specifier)
      (h : Climbs site.dirSegments (split '/' specifier)) : ClimbsOut site specifier
  | fromRoot {rest : Text} (h : Climbs [] (split '/' rest)) : ClimbsOut site (['$', '/'] ++ rest)

section Proper

variable {site : Site} (hdir : ∀ s ∈ site.dirSegments, IsName s) {specifier : Text}

include hdir

/-- A specifier climbs out exactly if it is spelled as a local one and has no target. -/
theorem climbsOut_iff : site.ClimbsOut specifier ↔
    (site.spelled? specifier).isSome = true ∧ site.target? specifier = none := by
  unfold target? spelled?
  split
  · next hstart =>
    rw [Bool.or_eq_true, startsWith_iff, startsWith_iff] at hstart
    rw [Option.bind_some, resolveSegments_dir hdir]
    constructor
    · intro h
      cases h with
      | relative _ h => exact ⟨rfl, h.resolveFrom_eq⟩
      | fromRoot h => rcases hstart with hstart | hstart <;> simp at hstart
    · rintro ⟨-, hnone⟩
      have hclimbs := climbs_of_resolveFrom hnone
      rw [List.reverse_reverse] at hclimbs
      exact .relative hstart hclimbs
  · next hstart =>
    rw [Bool.or_eq_true, startsWith_iff, startsWith_iff] at hstart
    constructor
    · intro h
      cases h with
      | relative hrelative => exact absurd hrelative hstart
      | @fromRoot rest h =>
        rw [after?_eq_some_iff.mpr (rfl : ['$', '/'] ++ rest = ['$', '/'] ++ rest)]
        exact ⟨rfl, h.resolveFrom_eq⟩
    · rintro ⟨hsome, hnone⟩
      obtain ⟨rest, hrest⟩ := Option.isSome_iff_exists.mp hsome
      rw [hrest, Option.bind_some] at hnone
      rw [after?_eq_some_iff.mp hrest]
      exact .fromRoot (climbs_of_resolveFrom hnone)

theorem LeadsTo.not_climbsOut {target : List Text} (h : site.LeadsTo specifier target) :
    ¬ site.ClimbsOut specifier := by
  rw [climbsOut_iff hdir, (target?_eq_some_iff hdir).mpr h]
  simp

theorem LeadsTo.inside {target : List Text} (h : site.LeadsTo specifier target) :
    (site.resolve specifier).Inside := by
  have hpieces (t : Text) : ∀ s ∈ split '/' t, IsName s → IsName s ∧ '/' ∉ s :=
    fun s hs hname => ⟨hname, not_mem_of_mem_split hs⟩
  refine ⟨target, endsWith specifier ['/'], ?_, resolve_of_leadsTo hdir h⟩
  cases h with
  | relative _ h =>
    exact h.forall_mem (fun s hs => ⟨hdir s hs, not_mem_of_mem_dirSegments hs⟩) (hpieces _)
  | fromRoot h => exact h.forall_mem (by simp) (hpieces _)

theorem resolve_of_climbsOut (h : site.ClimbsOut specifier) :
    site.resolve specifier = ⟨specifier⟩ := by
  rw [resolve, ((climbsOut_iff hdir).mp h).2]

/-- A specifier that climbs out is taken for a local path exactly if it begins like one. -/
theorem isLocal_resolve_of_climbsOut (h : site.ClimbsOut specifier) :
    (site.resolve specifier).isLocal = true ↔ ['.', '/'] <+: specifier := by
  rw [resolve_of_climbsOut hdir h]
  exact startsWith_iff

theorem leadsTo_or_climbsOut (h : (site.resolve specifier).isLocal = true) :
    (∃ target, site.LeadsTo specifier target) ∨ site.ClimbsOut specifier := by
  cases htarget : site.target? specifier with
  | some target => exact .inl ⟨target, (target?_eq_some_iff hdir).mp htarget⟩
  | none =>
    rw [resolve, htarget] at h
    have hspelled : (site.spelled? specifier).isSome = true := by
      have hstart : startsWith specifier ['.', '/'] = true := h
      simp [spelled?, hstart]
    exact .inr ((climbsOut_iff hdir).mpr ⟨hspelled, htarget⟩)

/-- A local path goes up somewhere exactly if the specifier climbs out. -/
theorem mem_split_iff (h : (site.resolve specifier).isLocal = true) :
    ['.', '.'] ∈ split '/' (site.resolve specifier).text ↔ site.ClimbsOut specifier := by
  rcases leadsTo_or_climbsOut hdir h with ⟨target, htarget⟩ | hclimbs
  · exact iff_of_false (htarget.inside hdir).not_mem_split (htarget.not_climbsOut hdir)
  · rw [resolve_of_climbsOut hdir hclimbs]
    refine iff_of_true ?_ hclimbs
    cases hclimbs with
    | relative _ hclimbs => exact hclimbs.mem
    | @fromRoot rest hclimbs =>
      have hsplit : split '/' (['$', '/'] ++ rest) = ['$'] :: split '/' rest :=
        split_append_cons '/' ['$'] rest
      rw [hsplit]
      exact List.mem_cons_of_mem _ hclimbs.mem

/-- The place of a local path lies below every root unless the specifier climbs out. -/
theorem location?_within_iff (h : (site.resolve specifier).isLocal = true) (root : Text) :
    ∃ location, (site.resolve specifier).location? root = some location ∧
      (PathText.Within root location ↔ ¬ site.ClimbsOut specifier) := by
  rcases leadsTo_or_climbsOut hdir h with ⟨target, htarget⟩ | hclimbs
  · obtain ⟨location, hlocation, hwithin⟩ := (htarget.inside hdir).location? root
    exact ⟨location, hlocation, fun _ => htarget.not_climbsOut hdir, fun _ => hwithin⟩
  · obtain ⟨rest, hrest⟩ := (isLocal_resolve_of_climbsOut hdir hclimbs).mp h
    have hout : Climbs [] (split '/' rest) := by
      cases hclimbs with
      | relative _ hclimbs =>
        rw [← hrest, ← ModulePath.localMarker, ModulePath.split_marker, ← climbs_filter_iff,
          List.filter_cons_of_neg (by decide)] at hclimbs
        exact climbs_filter_iff.mp hclimbs.from_root
      | fromRoot => simp at hrest
    -- the slashes at the end make no difference
    have hpath : Climbs [] (split '/' (dropEndWhile (· == '/') rest)) := by
      rw [← climbs_filter_iff, ← PathText.names, PathText.names_dropEndWhile, PathText.names,
        climbs_filter_iff]
      exact hout
    have hne : dropEndWhile (· == '/') rest ≠ [] := by
      intro hnil
      have hmem := hpath.mem
      rw [hnil] at hmem
      contradiction
    have hlocation := ModulePath.location?_eq hne root
    have houtside := PathText.not_within_of_climbs root (fun s hs => not_mem_of_mem_split hs) hpath
    rw [resolve_of_climbsOut hdir hclimbs, ← hrest]
    rw [← hrest] at hclimbs
    exact ⟨_, hlocation, iff_of_false houtside (not_not_intro hclimbs)⟩

end Proper
end Site
end Namespacer
