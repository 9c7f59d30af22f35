import Namespacer.Proofs.Disk.Located
import Namespacer.Proofs.Disk.Walk
import Namespacer.Proofs.Text.ByteOrder

/-! The source files under a root: which ones a walk finds, in which order, and when it succeeds. -/
namespace Namespacer

open Text

namespace Disk

/-- Whether all directories of a disk list entries that can be named in a path. -/
def isNamed (disk : Disk) : Bool := Node.isNamedIn disk.top

/-- The node that a walk starts at. A link at the root stands for the directory that it leads to. -/
def walkStart? (disk : Disk) (root : Text) : Option Node :=
  match disk.locate root false with
  | .error _ => none
  | .ok names =>
    match disk.node? names with
    | some (.link target) =>
      match disk.locate root true with
      | .error _ => none
      | .ok names =>
        match disk.node? names with
        | some (.dir entries) => some (.dir entries)
        | _ => some (.link target)
    | node? => node?

variable {disk : Disk} {root : Text} {filter : SourceFilter}

theorem sourcesUnder_error {e : Failure} (h : disk.sourcesUnder root filter = .error e) :
    ∃ path reason, e = .walk root path reason := by
  unfold sourcesUnder at h
  split at h
  · cases h
    exact ⟨_, _, rfl⟩
  · split at h
    · split at h
      · cases h
        exact ⟨_, _, rfl⟩
      · exact filter.sourcesIn_error root _ _ _ h
    · exact filter.sources_error root _ _ _ h
    · contradiction

theorem wellFormed_of_node? (hsorted : disk.isSorted = true) (hnamed : disk.isNamed = true)
    {names : List Text} {node : Node} (h : disk.node? names = some node) :
    node.isSorted = true ∧ node.isNamed = true := by
  have htop : (Node.dir disk.top).isSorted = true ∧ (Node.dir disk.top).isNamed = true := by
    rw [Node.isSorted, Node.isNamed]
    exact ⟨hsorted, hnamed⟩
  obtain ⟨hs, hn, -⟩ := Node.wellFormed_of_descend? h htop.1 htop.2
  exact ⟨hs, hn⟩

theorem wellFormed_of_walkStart? (hsorted : disk.isSorted = true) (hnamed : disk.isNamed = true)
    {start : Node} (h : disk.walkStart? root = some start) :
    start.isSorted = true ∧ start.isNamed = true := by
  unfold walkStart? at h
  split at h
  · contradiction
  · split at h
    · split at h
      · contradiction
      · split at h
        · next hdir =>
          cases h
          exact wellFormed_of_node? hsorted hnamed hdir
        · cases h
          simp [Node.isSorted, Node.isNamed]
    · exact wellFormed_of_node? hsorted hnamed h

/-- What a walk under a root finds, in terms of the nodes that it comes to. -/
theorem sourcesUnder_eq_ok_iff (hsorted : disk.isSorted = true) (hnamed : disk.isNamed = true)
    {files : List Text} :
    disk.sourcesUnder root filter = .ok files ↔ ∃ start, disk.walkStart? root = some start ∧
      (∀ e ∈ filter.walked [] start, SourceFilter.Opens root e) ∧
      files = (filter.walked [] start).filterMap (SourceFilter.sourceAt? root) := by
  unfold sourcesUnder walkStart?
  cases hlocate : disk.locate root false with
  | error e => simp
  | ok names =>
    dsimp only
    obtain ⟨node, hnode⟩ := Option.isSome_iff_exists.mp (isSome_of_locate hlocate)
    have hnodeNamed := (wellFormed_of_node? hsorted hnamed hnode).2
    have hwalk {files : List Text} : filter.sources root root [] node = .ok files ↔
        (∀ e ∈ filter.walked [] node, SourceFilter.Opens root e) ∧
          files = (filter.walked [] node).filterMap (SourceFilter.sourceAt? root) :=
      filter.sources_eq_ok_iff root root [] (by simp) node hnodeNamed
    rw [hnode]
    cases node with
    | file content =>
      simp only [Option.some.injEq, exists_eq_left']
      exact hwalk
    | dir entries =>
      simp only [Option.some.injEq, exists_eq_left']
      exact hwalk
    | link target =>
      have hnone : filter.sourcesIn root root [] [] =
          filter.sources root root [] (.link target) := by
        rw [SourceFilter.sourcesIn, SourceFilter.sources]
      dsimp only
      cases hfollow : disk.locate root true with
      | error e => simp
      | ok names' =>
        dsimp only
        obtain ⟨node', hnode'⟩ := Option.isSome_iff_exists.mp (isSome_of_locate hfollow)
        rw [hnode']
        cases node' with
        | file content =>
          simp only [Node.entriesOf, Option.some.injEq, exists_eq_left', hnone]
          exact hwalk
        | link target' =>
          simp only [Node.entriesOf, Option.some.injEq, exists_eq_left', hnone]
          exact hwalk
        | dir entries =>
          have hnamed' := (wellFormed_of_node? hsorted hnamed hnode').2
          rw [Node.isNamed] at hnamed'
          simp only [Node.entriesOf, Option.some.injEq, exists_eq_left']
          rw [SourceFilter.walked, List.forall_mem_cons, SourceFilter.opens_nil,
            and_iff_right (size_le_of_locate hlocate)]
          exact filter.sourcesIn_eq_ok_iff root root [] (by simp) entries hnamed'

section Found

variable {start : Node} (hsorted : start.isSorted = true) (hnamed : start.isNamed = true)

include hsorted

theorem forall_opens_iff :
    (∀ e ∈ filter.walked [] start, SourceFilter.Opens root e) ↔
      ∀ names entries, start.descend? names = some (.dir entries) → filter.Admits [] names →
        Text.size (PathText.below root names) ≤ maxPathSize := by
  constructor
  · intro h names entries hfound hadmits
    exact h (names, .dir entries)
      ((filter.mem_walked_iff [] start hsorted).mpr ⟨hfound, hadmits⟩) entries rfl
  · rintro h ⟨names, node⟩ he entries rfl
    obtain ⟨hfound, hadmits⟩ := (filter.mem_walked_iff [] start hsorted).mp he
    exact h names entries hfound hadmits

theorem mem_found_iff {path : Text} :
    path ∈ (filter.walked [] start).filterMap (SourceFilter.sourceAt? root) ↔
      ∃ names content, start.descend? names = some (.file content) ∧ filter.Admits [] names ∧
        path = PathText.below root names ∧ isSourceName (PathText.fileName path) = true := by
  rw [List.mem_filterMap]
  constructor
  · rintro ⟨⟨names, node⟩, he, hpath⟩
    obtain ⟨hfound, hadmits⟩ := (filter.mem_walked_iff [] start hsorted).mp he
    obtain ⟨⟨content, rfl⟩, rfl, hsource⟩ := SourceFilter.sourceAt?_eq_some_iff.mp hpath
    exact ⟨names, content, hfound, hadmits, rfl, hsource⟩
  · rintro ⟨names, content, hfound, hadmits, rfl, hsource⟩
    exact ⟨(names, .file content), (filter.mem_walked_iff [] start hsorted).mpr ⟨hfound, hadmits⟩,
      SourceFilter.sourceAt?_eq_some_iff.mpr ⟨⟨content, rfl⟩, rfl, hsource⟩⟩

include hnamed

theorem pairwise_found :
    ((filter.walked [] start).filterMap (SourceFilter.sourceAt? root)).Pairwise fun p q =>
      (PathText.components p).map bytes < (PathText.components q).map bytes := by
  have hnames {e : List Text × Node} (he : e ∈ filter.walked [] start) :
      ∀ name ∈ e.1, isEntryName name = true :=
    (Node.wellFormed_of_descend? ((filter.mem_walked_iff [] start hsorted).mp he).1 hsorted
      hnamed).2.2
  refine List.pairwise_filterMap.mpr ((filter.pairwise_walked [] start hsorted).imp_of_mem ?_)
  rintro ⟨names, node⟩ ⟨names', node'⟩ he he' hlt p hp q hq
  obtain ⟨-, rfl, -⟩ := SourceFilter.sourceAt?_eq_some_iff.mp hp
  obtain ⟨-, rfl, -⟩ := SourceFilter.sourceAt?_eq_some_iff.mp hq
  rw [PathText.components_below root (hnames he), PathText.components_below root (hnames he'),
    List.map_append, List.map_append]
  exact List.append_left_lt (List.map_lt (fun _ _ => bytes_lt_bytes) hlt)

end Found

/-- A walk under a root succeeds if it can start and the path of each directory that it comes to is
short enough. It finds just the regular files with the extension of a source that no excluded entry
lies on the way to, the last one being the file itself and the root not being one of them. It finds
each once, in the order of the components of their paths. -/
theorem sourcesUnder_exact (hsorted : disk.isSorted = true) (hnamed : disk.isNamed = true)
    (root : Text) (filter : SourceFilter) :
    let Admitted (names : List Text) := ∀ above name, above ++ [name] <+: names →
      filter.excludes name (Text.join '/' (above ++ [name])) = false
    ((∃ files, disk.sourcesUnder root filter = .ok files) ↔
      ∃ start, disk.walkStart? root = some start ∧
        ∀ names entries, start.descend? names = some (.dir entries) → Admitted names →
          Text.size (names.foldl PathText.join root) ≤ maxPathSize) ∧
    ∀ files, disk.sourcesUnder root filter = .ok files →
      ∃ start, disk.walkStart? root = some start ∧
        (∀ path, path ∈ files ↔ ∃ names content, start.descend? names = some (.file content) ∧
          Admitted names ∧ path = names.foldl PathText.join root ∧
          ∃ stem ≠ [], ∃ ending ∈ sourceExtensions,
            PathText.fileName path = stem ++ '.' :: ending) ∧
        files.Pairwise (fun p q =>
          (PathText.components p).map bytes < (PathText.components q).map bytes) ∧
        files.Nodup := by
  intro Admitted
  constructor
  · constructor
    · rintro ⟨files, h⟩
      obtain ⟨start, hstart, hopens, -⟩ := (sourcesUnder_eq_ok_iff hsorted hnamed).mp h
      obtain ⟨hs, -⟩ := wellFormed_of_walkStart? hsorted hnamed hstart
      exact ⟨start, hstart, (forall_opens_iff hs).mp hopens⟩
    · rintro ⟨start, hstart, hshort⟩
      obtain ⟨hs, -⟩ := wellFormed_of_walkStart? hsorted hnamed hstart
      exact ⟨_, (sourcesUnder_eq_ok_iff hsorted hnamed).mpr
        ⟨start, hstart, (forall_opens_iff hs).mpr hshort, rfl⟩⟩
  · intro files h
    obtain ⟨start, hstart, -, rfl⟩ := (sourcesUnder_eq_ok_iff hsorted hnamed).mp h
    obtain ⟨hs, hn⟩ := wellFormed_of_walkStart? hsorted hnamed hstart
    have hpairs : ((filter.walked [] start).filterMap (SourceFilter.sourceAt? root)).Pairwise
        fun p q => (PathText.components p).map bytes < (PathText.components q).map bytes :=
      pairwise_found hs hn
    refine ⟨start, hstart, fun path => ?_, hpairs, hpairs.imp fun hlt heq => ?_⟩
    · simp only [← isSourceName_iff]
      exact mem_found_iff hs
    · exact List.lt_irrefl _ (heq ▸ hlt)

/-- What lies in a directory comes before the files whose names continue its name, though a slash
comes behind the characters that they continue with. A file that a pattern fits is left out, and
none fits a file that is found. -/
theorem sourcesUnder_exact_siblings :
    let source : Node := .file (.text [])
    let disk : Disk := ⟨[(".git".toList, .dir [("hook.js".toList, source)]),
      ("a".toList, .dir [("x.mjs".toList, source), ("y.md".toList, source)]),
      ("a-b.js".toList, source), ("a.js".toList, source), ("b.min.js".toList, source),
      ("node_modules".toList, .dir [("p.js".toList, source)])], []⟩
    let files := ["./a/x.mjs".toList, "./a-b.js".toList, "./a.js".toList]
    disk.isSorted = true ∧ disk.isNamed = true ∧
      ∃ filter, SourceFilter.parse ["*.min.js".toList] true = .ok filter ∧
        disk.sourcesUnder ['.'] filter = .ok files ∧
        (∃ start, disk.walkStart? ['.'] = some start ∧
          ∃ names content, start.descend? names = some (.file content) ∧
            "./a/x.mjs".toList = names.foldl PathText.join ['.'] ∧
            ∀ above name, above ++ [name] <+: names → ∀ p ∈ filter.patterns,
              p.fits name = false ∧ p.fits (Text.join '/' (above ++ [name])) = false) ∧
        (∃ p ∈ filter.patterns, p.fits "b.min.js".toList = true) ∧
        files.Pairwise fun p q =>
          (PathText.components p).map bytes < (PathText.components q).map bytes := by
  intro source disk files
  have hsorted : disk.isSorted = true := by decide +kernel
  have hnamed : disk.isNamed = true := by decide +kernel
  have hfound : ((SourceFilter.parse ["*.min.js".toList] true).toOption.bind fun filter =>
      (disk.sourcesUnder ['.'] filter).toOption) = some files := by decide +kernel
  obtain ⟨filter, hparsed, hsources⟩ := Option.bind_eq_some_iff.mp hfound
  have hfiles := eq_ok_of_toOption hsources
  obtain ⟨-, hexact⟩ := sourcesUnder_exact hsorted hnamed ['.'] filter
  obtain ⟨start, hstart, hmem, hpairs, -⟩ := hexact files hfiles
  obtain ⟨names, content, hlies, hadmitted, hpath, -⟩ :=
    (hmem "./a/x.mjs".toList).mp (by simp [files])
  refine ⟨hsorted, hnamed, filter, eq_ok_of_toOption hparsed, hfiles, ⟨start, hstart, names,
    content, hlies, hpath, fun above name hprefix p hp => ?_⟩, ?_, hpairs⟩
  · have hnot := SourceFilter.excludes_iff.not.mp (Bool.eq_false_iff.mp (hadmitted _ _ hprefix))
    simp only [not_or, not_exists, not_and, Bool.not_eq_true] at hnot
    exact hnot.2 p hp
  · have hwalk : disk.walkStart? ['.'] = some (.dir disk.top) := rfl
    obtain rfl : .dir disk.top = start := Option.some.inj (hwalk.symm.trans hstart)
    -- only a pattern can keep the file from being found
    have hleft : "./b.min.js".toList ∉ files := by decide +kernel
    by_contra hnone
    refine hleft ((hmem _).mpr ⟨["b.min.js".toList], .text [], rfl, fun above name hprefix => ?_,
      rfl, "b.min".toList, by decide, ['j', 's'], by decide, by decide +kernel⟩)
    obtain ⟨rfl, rfl⟩ : above = [] ∧ name = "b.min.js".toList := by
      cases above with
      | nil => exact ⟨rfl, (List.cons_prefix_cons.mp hprefix).1⟩
      | cons first above =>
        have hrest := (List.cons_prefix_cons.mp hprefix).2
        simp at hrest
    refine Bool.eq_false_iff.mpr fun hexcluded => ?_
    rcases SourceFilter.excludes_iff.mp hexcluded with ⟨-, ⟨rest, hdot⟩ | hname⟩ | ⟨p, hp, hfits⟩
    · cases hdot
    · cases hname
    · exact hnone ⟨p, hp, (or_self_iff).mp hfits⟩

end Disk
end Namespacer
