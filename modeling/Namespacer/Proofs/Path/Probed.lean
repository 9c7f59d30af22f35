import Namespacer.Proofs.Path.Form

/-! The target that a specifier is completed for. A slash at the end leaves it where it leads, and
an extension makes a file name of a name. Behind `.` or `..` an extension makes a name of the dots,
and the specifier then leads to another place than the file that was looked for. -/
namespace Namespacer

open Text

/-! One segment more. -/

theorem resolveFrom_append (down segments more : List Text) :
    resolveFrom down (segments ++ more) =
      (resolveFrom down segments).bind fun target => resolveFrom target.reverse more := by
  induction segments generalizing down with
  | nil => simp [resolveFrom]
  | cons segment segments ih =>
    rw [List.cons_append, resolveFrom.eq_def, resolveFrom.eq_def down (segment :: segments)]
    dsimp only
    split
    · exact ih down
    · split
      · cases down with
        | nil => rfl
        | cons name up => exact ih up
      · exact ih _

theorem resolveFrom_empty (target : List Text) :
    resolveFrom target.reverse [[]] = some target := by
  simp [resolveFrom]

theorem resolveFrom_dot (target : List Text) :
    resolveFrom target.reverse [['.']] = some target := by
  simp [resolveFrom]

theorem resolveFrom_dots (target : List Text) (name : Text) :
    resolveFrom (target ++ [name]).reverse [['.', '.']] = some target := by
  simp [resolveFrom]

theorem resolveFrom_name (target : List Text) {name : Text} (h : IsName name) :
    resolveFrom target.reverse [name] = some (target ++ [name]) := by
  simp [resolveFrom, h.1, h.2.1, h.2.2]

/-! Paths as text. -/

theorem exists_eq_append_cons_of_mem {c : Char} {t : Text} (h : c ∈ t) :
    ∃ front last, t = front ++ c :: last ∧ c ∉ last := by
  obtain ⟨last, front, heq, hnot⟩ := List.eq_append_cons_of_mem (List.mem_reverse.mpr h)
  refine ⟨front.reverse, last.reverse, ?_, by simpa using hnot⟩
  simpa using congrArg List.reverse heq

theorem prefix_of_prefix_append {marker front last : Text} {c : Char}
    (h : marker ++ [c] <+: front ++ last) (hlast : c ∉ last) : marker ++ [c] <+: front := by
  rcases List.prefix_or_prefix_of_prefix h (List.prefix_append front last) with h' | ⟨more, hmore⟩
  · exact h'
  · rcases List.eq_nil_or_concat more with rfl | ⟨init, d, rfl⟩
    · rw [List.append_nil] at hmore
      exact hmore ▸ List.prefix_rfl
    · rw [List.concat_eq_append, ← List.append_assoc] at hmore
      obtain ⟨-, hd⟩ := List.append_inj' hmore rfl
      cases hd
      rw [← hmore, List.append_assoc, List.prefix_append_right_inj] at h
      exact absurd (h.subset (by simp)) hlast

theorem eq_of_append_eq_append {front last front' last' : Text} {c : Char} (h : [c] <:+ front)
    (hlast : c ∉ last) (h' : [c] <:+ front') (hlast' : c ∉ last')
    (heq : front ++ last = front' ++ last') : front = front' ∧ last = last' := by
  obtain ⟨init, rfl⟩ := h
  obtain ⟨init', rfl⟩ := h'
  have hfront := prefix_of_prefix_append (heq ▸ List.prefix_append (init ++ [c]) last) hlast'
  have hfront' := prefix_of_prefix_append (heq ▸ List.prefix_append (init' ++ [c]) last') hlast
  have hsame := hfront.eq_of_length_le hfront'.length_le
  rw [hsame] at heq
  exact ⟨hsame, List.append_cancel_left heq⟩

theorem join_concat {target : List Text} (hne : target ≠ []) (segment : Text) :
    join '/' (target ++ [segment]) = join '/' target ++ '/' :: segment := by
  induction target with
  | nil => contradiction
  | cons s target ih =>
    cases target with
    | nil => simp [join, List.intercalate_cons_cons]
    | cons s' target =>
      have hrest := ih (List.cons_ne_nil s' target)
      unfold join at hrest ⊢
      simp only [List.cons_append, List.intercalate_cons_cons] at hrest ⊢
      simp [hrest]

theorem join_concat_append (target : List Text) (segment more : Text) :
    join '/' (target ++ [segment ++ more]) = join '/' (target ++ [segment]) ++ more := by
  cases target with
  | nil => simp [join]
  | cons s target =>
    rw [join_concat (List.cons_ne_nil s target), join_concat (List.cons_ne_nil s target)]
    simp

namespace Site

variable {site : Site} {specifier front last path : Text}

theorem spelled?_append (h : site.spelled? front = some path) (t : Text) :
    site.spelled? (front ++ t) = some (path ++ t) := by
  unfold spelled? at h ⊢
  simp only [startsWith_iff, Bool.or_eq_true] at h ⊢
  split at h
  · next hstart =>
    rw [if_pos (hstart.imp (List.prefix_append_of_prefix · ) (List.prefix_append_of_prefix ·))]
    cases h
    split <;> simp
  · rw [after?_eq_some_iff] at h
    subst h
    rw [if_neg (by simp)]
    exact after?_eq_some_iff.mpr (by simp)

theorem mem_of_spelled? (h : site.spelled? specifier = some path) : '/' ∈ specifier := by
  unfold spelled? at h
  split at h
  · next hstart =>
    rw [Bool.or_eq_true, startsWith_iff, startsWith_iff] at hstart
    rcases hstart with hstart | hstart
    · exact hstart.subset (by simp)
    · exact hstart.subset (by simp)
  · rw [after?_eq_some_iff.mp h]
    simp

theorem exists_spelled?_of_isLocal (h : (site.resolve specifier).isLocal = true) :
    ∃ path, site.spelled? specifier = some path := by
  unfold resolve at h
  split at h
  · refine ⟨_, if_pos ?_⟩
    rw [Bool.or_eq_true]
    exact .inl h
  · next htarget =>
    obtain ⟨path, hpath, -⟩ := Option.bind_eq_some_iff.mp htarget
    exact ⟨path, hpath⟩

/-- What makes a specifier a local one stands before its last segment. -/
theorem exists_spelled?_front (h : site.spelled? (front ++ last) = some path)
    (hlast : '/' ∉ last) : ∃ path', site.spelled? front = some path' := by
  unfold spelled? at h ⊢
  simp only [startsWith_iff, Bool.or_eq_true] at h ⊢
  split at h
  · next hstart =>
    have hdot (h : ['.'] ++ ['/'] <+: front ++ last) : ['.', '/'] <+: front :=
      prefix_of_prefix_append h hlast
    have hdots (h : ['.', '.'] ++ ['/'] <+: front ++ last) : ['.', '.', '/'] <+: front :=
      prefix_of_prefix_append h hlast
    rw [if_pos (hstart.imp hdot hdots)]
    exact ⟨_, rfl⟩
  · next hstart =>
    have hroot : ['$'] ++ ['/'] <+: front ++ last := ⟨path, (after?_eq_some_iff.mp h).symm⟩
    obtain ⟨rest, rfl⟩ := prefix_of_prefix_append hroot hlast
    rw [if_neg (by simp)]
    exact ⟨rest, after?_eq_some_iff.mpr rfl⟩

theorem exists_segments (h : site.spelled? front = some path) (hslash : ['/'] <:+ front) :
    ∃ segments, ∀ last, '/' ∉ last → split '/' (path ++ last) = segments ++ [last] := by
  have hpath : path = [] ∨ ['/'] <:+ path := by
    unfold spelled? at h
    split at h
    · cases h
      right
      split
      · exact hslash
      · exact hslash.trans (List.suffix_append_of_suffix (List.suffix_cons _ _))
    · rw [after?_eq_some_iff] at h
      subst h
      rcases List.eq_nil_or_concat path with rfl | ⟨init, c, rfl⟩
      · exact .inl rfl
      · obtain ⟨rest, hrest⟩ := hslash
        rw [List.concat_eq_append, ← List.append_assoc] at hrest
        obtain ⟨-, hc⟩ := List.append_inj' hrest rfl
        exact .inr ⟨init, by rw [List.concat_eq_append, hc]⟩
  rcases hpath with rfl | ⟨init, rfl⟩
  · exact ⟨[], fun last hlast => split_of_not_mem hlast⟩
  · refine ⟨split '/' init, fun last hlast => ?_⟩
    rw [List.append_assoc, List.singleton_append, split_append_cons, split_of_not_mem hlast]

/-- Behind a slash the way goes on by one segment. -/
theorem target?_append (h : site.spelled? front = some path) (hslash : ['/'] <:+ front)
    (hlast : '/' ∉ last) : site.target? (front ++ last) =
      (site.target? front).bind fun target => resolveFrom target.reverse [last] := by
  obtain ⟨segments, hsegments⟩ := exists_segments h hslash
  have hfront := hsegments [] (by simp)
  rw [List.append_nil] at hfront
  unfold target? resolveSegments
  rw [spelled?_append h, h, Option.bind_some, Option.bind_some, hsegments last hlast, hfront,
    resolveFrom_append, resolveFrom_append, Option.bind_assoc]
  simp only [resolveFrom_empty, Option.bind_some]

/-- A slash at the end leads nowhere else. -/
theorem target?_append_slash (h : site.spelled? specifier = some path) :
    site.target? (specifier ++ Ending.slash.text) = site.target? specifier := by
  have hempty : split '/' [] = [[]] := rfl
  unfold target? resolveSegments
  rw [spelled?_append h, h, Option.bind_some, Option.bind_some, Ending.text, split_append_cons,
    resolveFrom_append, hempty]
  simp only [resolveFrom_empty, Option.bind_fun_some]

/-- An extension makes a name of the last segment, whatever that is. -/
theorem target?_append_extension (h : site.spelled? front = some path) (hslash : ['/'] <:+ front)
    (hlast : '/' ∉ last) : site.target? (front ++ last ++ Ending.extension.text) =
      (site.target? front).map fun target => target ++ [last ++ Ending.extension.text] := by
  have hname : '/' ∉ last ++ Ending.extension.text := by simp [hlast, Ending.text]
  rw [List.append_assoc, target?_append h hslash hname]
  simp only [resolveFrom_name _ (isName_append_extension last)]
  rw [Option.map_eq_bind]
  rfl

theorem text_resolve_of_none (h : site.target? specifier = none) :
    (site.resolve specifier).text = specifier := by
  rw [resolve, h]

theorem text_resolve_of_some {target : List Text} (h : site.target? specifier = some target) :
    (site.resolve specifier).text =
      ModulePath.localMarker ++ targetText target (endsWith specifier ['/']) := by
  rw [resolve, h, targetText]
  simp

/-! Specifiers that are completed. -/

section Lacks

variable {probe : Probe} {ending : Ending} (h : site.formOf probe specifier = .lacks ending)

include h

theorem isDirectory_of_lacks : (site.resolve specifier).isDirectory = false := by
  unfold formOf at h
  dsimp only at h
  split at h
  · contradiction
  · next hopen =>
    simp only [Bool.or_eq_true, not_or, Bool.not_eq_true] at hopen
    exact hopen.1.2

/-- A specifier that is completed does not mean the root, and has no slash at the end. -/
theorem text_resolve_of_lacks {target : List Text}
    (htarget : site.target? specifier = some target) :
    target ≠ [] ∧ (site.resolve specifier).text = ModulePath.localMarker ++ join '/' target := by
  have htext := text_resolve_of_some htarget
  have hopen := isDirectory_of_lacks h
  rw [ModulePath.isDirectory, htext] at hopen
  rw [htext]
  cases target with
  | nil =>
    have hroot : targetText [] (endsWith specifier ['/']) = [] := by simp [targetText, join]
    rw [hroot] at hopen
    contradiction
  | cons s target =>
    refine ⟨List.cons_ne_nil s target, ?_⟩
    cases hslash : endsWith specifier ['/'] with
    | false => simp [targetText]
    | true =>
      rw [hslash, ← Bool.not_eq_true, endsWith_iff] at hopen
      refine absurd ?_ hopen
      rw [targetText, ← List.append_assoc]
      exact List.suffix_append _ _

/-- A specifier that is completed has a last segment behind a slash. -/
theorem exists_front_of_lacks : ∃ front last path, specifier = front ++ last ∧
    ['/'] <:+ front ∧ '/' ∉ last ∧ last ≠ [] ∧ site.spelled? front = some path := by
  obtain ⟨path, hpath⟩ := exists_spelled?_of_isLocal (isLocal_of_lacks h)
  obtain ⟨front, last, rfl, hlast⟩ := exists_eq_append_cons_of_mem (mem_of_spelled? hpath)
  have hcut : front ++ '/' :: last = front ++ ['/'] ++ last := by simp
  rw [hcut] at h hpath ⊢
  obtain ⟨path', hpath'⟩ := exists_spelled?_front hpath hlast
  refine ⟨front ++ ['/'], last, path', rfl, List.suffix_append _ _, hlast, ?_, hpath'⟩
  rintro rfl
  have hdirectory : (site.resolve (front ++ ['/'])).isDirectory = true :=
    site.isDirectory_resolve front
  rw [List.append_nil] at h
  rw [isDirectory_of_lacks h] at hdirectory
  contradiction

/-- A directory is found again by the specifier with a slash. -/
theorem text_resolve_append_slash : (site.resolve (specifier ++ Ending.slash.text)).text =
    (site.resolve specifier).text ++ Ending.slash.text := by
  obtain ⟨path, hpath⟩ := exists_spelled?_of_isLocal (isLocal_of_lacks h)
  have hsame := target?_append_slash hpath
  cases htarget : site.target? specifier with
  | none => rw [text_resolve_of_none htarget, text_resolve_of_none (hsame.trans htarget)]
  | some target =>
    obtain ⟨hne, htext⟩ := text_resolve_of_lacks h htarget
    have hslash : endsWith (specifier ++ Ending.slash.text) ['/'] = true :=
      endsWith_iff.mpr (List.suffix_append _ _)
    rw [htext, text_resolve_of_some (hsame.trans htarget), hslash]
    simp [targetText, hne, Ending.text]

end Lacks

/-- The last segment is `.` or `..` behind a text that leads to a place below the root. Only `./..`
at the root itself does not count. -/
def EndsInDots (site : Site) (specifier : Text) : Prop :=
  ∃ front dots target, specifier = front ++ dots ∧ ['/'] <:+ front ∧
    (dots = ['.'] ∨ dots = ['.', '.']) ∧ site.target? front = some target ∧
      (target = [] → front ≠ ['.', '/'])

theorem endsInDots_iff (hslash : ['/'] <:+ front) (hlast : '/' ∉ last) :
    site.EndsInDots (front ++ last) ↔ (last = ['.'] ∨ last = ['.', '.']) ∧
      ∃ target, site.target? front = some target ∧ (target = [] → front ≠ ['.', '/']) := by
  constructor
  · rintro ⟨front', dots, target, heq, hslash', hdots, htarget, hroot⟩
    have hmem : '/' ∉ dots := by rcases hdots with rfl | rfl <;> decide
    obtain ⟨rfl, rfl⟩ := eq_of_append_eq_append hslash hlast hslash' hmem heq
    exact ⟨hdots, target, htarget, hroot⟩
  · rintro ⟨hdots, target, htarget, hroot⟩
    exact ⟨front, last, target, rfl, hslash, hdots, htarget, hroot⟩

/-- A file is found again by the specifier with an extension, unless that goes behind dots. -/
theorem text_resolve_append_extension_iff {probe : Probe} {ending : Ending}
    (h : site.formOf probe specifier = .lacks ending) :
    (site.resolve (specifier ++ Ending.extension.text)).text =
        (site.resolve specifier).text ++ Ending.extension.text ↔
      ¬ site.EndsInDots specifier := by
  obtain ⟨front, last, path, rfl, hslash, hlast, hne, hpath⟩ := exists_front_of_lacks h
  have hhere := target?_append hpath hslash hlast
  have hfile := target?_append_extension hpath hslash hlast
  rw [endsInDots_iff hslash hlast]
  cases hfront : site.target? front with
  | none =>
    rw [hfront] at hhere hfile
    rw [text_resolve_of_none hfile, text_resolve_of_none hhere]
    simp
  | some target =>
    rw [hfront, Option.bind_some] at hhere
    rw [hfront, Option.map_some] at hfile
    have hopen : endsWith (front ++ last ++ Ending.extension.text) ['/'] = false := by
      rw [← Bool.not_eq_true, endsWith_iff]
      rintro ⟨u, hu⟩
      simpa [Ending.text] using congrArg List.getLast? hu
    have htext : (site.resolve (front ++ last ++ Ending.extension.text)).text =
        ModulePath.localMarker ++ join '/' (target ++ [last ++ Ending.extension.text]) := by
      rw [text_resolve_of_some hfile, hopen]
      simp [targetText]
    have hhere' {place : List Text} (hplace : site.target? (front ++ last) = some place) :=
      text_resolve_of_lacks h hplace
    by_cases hdot : last = ['.']
    · -- the dots have become a name below the directory that was meant
      subst hdot
      rw [resolveFrom_dot] at hhere
      obtain ⟨hsome, hold⟩ := hhere' hhere
      rw [htext, hold, join_concat hsome]
      simp [Ending.text, hsome]
    · by_cases hdots : last = ['.', '.']
      · subst hdots
        rcases List.eq_nil_or_concat target with rfl | ⟨up, name, rfl⟩
        · have hclimbs : site.target? (front ++ ['.', '.']) = none := hhere
          have hname : ModulePath.localMarker ++
              join '/' ([] ++ [['.', '.'] ++ Ending.extension.text]) =
                ModulePath.localMarker ++ ['.', '.'] ++ Ending.extension.text := rfl
          rw [htext, text_resolve_of_none hclimbs, hname, List.append_cancel_right_eq,
            List.append_cancel_right_eq]
          simp [ModulePath.localMarker, eq_comm]
        · rw [List.concat_eq_append] at hhere htext ⊢
          rw [resolveFrom_dots] at hhere
          obtain ⟨hsome, hold⟩ := hhere' hhere
          rw [htext, hold, join_concat (by simp), join_concat hsome]
          simp [Ending.text]
      · have hname : IsName last := ⟨hne, hdot, hdots⟩
        rw [resolveFrom_name target hname] at hhere
        rw [htext, (hhere' hhere).2, join_concat_append]
        simp [hdot, hdots]

theorem exists_location?_of_lacks {probe : Probe} {ending : Ending}
    (h : site.formOf probe specifier = .lacks ending) :
    ∃ location, (site.resolve specifier).location? site.root = some location ∧
      probe.isDir location = decide (ending = .slash) ∧
      probe.isFile (location ++ Ending.extension.text) = decide (ending = .extension) := by
  unfold formOf at h
  dsimp only at h
  split at h
  · contradiction
  · split at h
    · contradiction
    · next location hlocation =>
      refine ⟨location, hlocation, ?_⟩
      split at h
      · next hdir hfile =>
        cases h
        exact ⟨hdir, hfile⟩
      · next hdir hfile =>
        cases h
        exact ⟨hdir, hfile⟩
      · contradiction
      · contradiction

end Site

/-- A fix completes the specifier of its statement by what was found at its place: with a slash for
a directory, which the specifier then means, and with an extension for a file, which the specifier
then means unless it ended in dots. -/
theorem Statement.fix?_probed_iff {s : Statement} {site : Site} {probe : Probe} {f : PathFix}
    (h : s.fix? site probe = some f) :
    ∃ completed location, f.pattern = s.literal ∧ f.replacement = s.quote.wrap completed ∧
      (site.resolve s.specifier).location? site.root = some location ∧
      (probe.isDir location = true ∧
          probe.isFile (location ++ Ending.extension.text) = false ∧
          (site.resolve completed).text = (site.resolve s.specifier).text ++ Ending.slash.text ∨
        probe.isDir location = false ∧
          probe.isFile (location ++ Ending.extension.text) = true ∧
          ((site.resolve completed).text =
              (site.resolve s.specifier).text ++ Ending.extension.text ↔
            ¬ site.EndsInDots s.specifier)) := by
  unfold fix? at h
  split at h
  · next ending hform =>
    cases h
    obtain ⟨location, hlocation, hdir, hfile⟩ := Site.exists_location?_of_lacks hform
    refine ⟨s.specifier ++ ending.text, location, rfl, rfl, hlocation, ?_⟩
    cases ending with
    | slash => exact .inl ⟨hdir, hfile, Site.text_resolve_append_slash hform⟩
    | extension => exact .inr ⟨hdir, hfile, Site.text_resolve_append_extension_iff hform⟩
  · contradiction

/-- There is a file `a.js`, and `./a/.` is completed to mean another one. -/
theorem Statement.fix?_probed_iff_dot :
    let site : Site := ⟨"/p".toList, "index.js".toList⟩
    let probe : Probe := ⟨fun _ => false, fun path => path == "/p/a.js".toList⟩
    let s : Statement := ⟨.letKw, .name ['A'], .single, "./a/.".toList⟩
    ∃ f completed, s.fix? site probe = some f ∧ f.replacement = s.quote.wrap completed ∧
      (site.resolve s.specifier).text = "./a".toList ∧
      (site.resolve completed).text ≠ "./a.js".toList := by
  intro site probe s
  obtain ⟨f, hf⟩ : ∃ f, s.fix? site probe = some f :=
    Option.isSome_iff_exists.mp (by decide +kernel)
  have hmeans : (site.resolve s.specifier).text = "./a".toList := by decide +kernel
  have hdots : site.EndsInDots s.specifier :=
    ⟨"./a/".toList, ['.'], [['a']], rfl, ⟨"./a".toList, rfl⟩, .inl rfl, by decide +kernel, by simp⟩
  obtain ⟨completed, location, -, hreplacement, hlocation, hcases⟩ := fix?_probed_iff hf
  refine ⟨f, completed, hf, hreplacement, hmeans, fun hfile => ?_⟩
  rcases hcases with ⟨hdir, -⟩ | ⟨-, -, hiff⟩
  · contradiction
  · rw [hmeans] at hiff
    exact hiff.mp hfile hdots

end Namespacer
