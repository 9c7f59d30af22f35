import Namespacer.Proofs.Disk.Shape
import Namespacer.Proofs.Path.Below

/-! Walks in search of source files. A walk comes to every node that no entry on the way to it is
excluded from, and it comes to them in the order of their paths, component by component. -/
namespace Namespacer

open Text

namespace Node

mutual

/-- Whether every entry of every directory can be named in a path. -/
def isNamed : Node → Bool
  | file _ => true
  | link _ => true
  | dir entries => isNamedIn entries

def isNamedIn : List (Text × Node) → Bool
  | [] => true
  | (name, node) :: rest => isEntryName name && isNamed node && isNamedIn rest

end

theorem isNamedIn_iff {entries : List (Text × Node)} :
    isNamedIn entries = true ↔ ∀ e ∈ entries, isEntryName e.1 = true ∧ isNamed e.2 = true := by
  induction entries with
  | nil => simp [isNamedIn]
  | cons e entries ih =>
    obtain ⟨name, node⟩ := e
    rw [isNamedIn, Bool.and_eq_true, Bool.and_eq_true, ih, List.forall_mem_cons]

/-- What is found in a well-formed directory is well-formed, and so are the names on the way. -/
theorem wellFormed_of_descend? {node found : Node} {names : List Text}
    (h : node.descend? names = some found) (hsorted : node.isSorted = true)
    (hnamed : node.isNamed = true) :
    found.isSorted = true ∧ found.isNamed = true ∧ ∀ name ∈ names, isEntryName name = true := by
  induction names generalizing node with
  | nil =>
    rw [descend?_nil, Option.some.injEq] at h
    exact h ▸ ⟨hsorted, hnamed, by simp⟩
  | cons name names ih =>
    cases node with
    | file content => simp [descend?] at h
    | link target => simp [descend?] at h
    | dir entries =>
      rw [isSorted, isSortedIn_iff] at hsorted
      rw [isNamed, isNamedIn_iff] at hnamed
      obtain ⟨child, hchild, hrest⟩ := Option.bind_eq_some_iff.mp h
      have hmem := mem_of_findIn hchild
      obtain ⟨hs, hn, hnames⟩ := ih hrest (hsorted.2 _ hmem) (hnamed _ hmem).2
      exact ⟨hs, hn, List.forall_mem_cons.mpr ⟨(hnamed _ hmem).1, hnames⟩⟩

end Node

namespace SourceFilter

/-! What a walk comes to. -/

mutual

/-- What a walk comes to at or below a node, each node with the names that lead to it from there.
The names `above` lead to the node itself. -/
def walked (filter : SourceFilter) (above : List Text) : Node → List (List Text × Node)
  | .file content => [([], .file content)]
  | .link target => [([], .link target)]
  | .dir entries => ([], .dir entries) :: filter.walkedIn above entries

def walkedIn (filter : SourceFilter) (above : List Text) :
    List (Text × Node) → List (List Text × Node)
  | [] => []
  | (name, node) :: rest =>
    (if filter.excludes name (Text.join '/' (above ++ [name])) then []
      else (filter.walked (above ++ [name]) node).map fun e => (name :: e.1, e.2)) ++
      filter.walkedIn above rest

end

/-- Whether no entry is excluded on the way that some names lead below `above`. -/
def Admits (filter : SourceFilter) (above names : List Text) : Prop :=
  ∀ way name, way ++ [name] <+: names →
    filter.excludes name (Text.join '/' (above ++ way ++ [name])) = false

section Walked

variable {filter : SourceFilter} {above names : List Text}

theorem admits_nil : filter.Admits above [] := by
  intro way name h
  simp at h

theorem admits_cons {name : Text} :
    filter.Admits above (name :: names) ↔
      filter.excludes name (Text.join '/' (above ++ [name])) = false ∧
        filter.Admits (above ++ [name]) names := by
  constructor
  · intro h
    refine ⟨by simpa using h [] name (by simp), fun way last hway => ?_⟩
    simpa using h (name :: way) last (by simpa using hway)
  · rintro ⟨hname, hnames⟩ way last hway
    cases way with
    | nil =>
      obtain rfl : last = name := by simpa using hway
      simpa using hname
    | cons first way =>
      obtain ⟨rfl, hrest⟩ : first = name ∧ way ++ [last] <+: names := by simpa using hway
      simpa using hnames way last hrest

theorem exists_cons_of_mem_walkedIn {entries : List (Text × Node)} {found : Node}
    (h : (names, found) ∈ filter.walkedIn above entries) :
    ∃ e ∈ entries, ∃ more, names = e.1 :: more := by
  induction entries with
  | nil => simp [walkedIn] at h
  | cons e entries ih =>
    obtain ⟨name, node⟩ := e
    rw [walkedIn, List.mem_append] at h
    rcases h with h | h
    · split at h
      · contradiction
      · obtain ⟨inner, -, heq⟩ := List.mem_map.mp h
        exact ⟨_, List.mem_cons_self, inner.1, (Prod.mk.inj heq).1.symm⟩
    · obtain ⟨e, he, hnames⟩ := ih h
      exact ⟨e, List.mem_cons_of_mem _ he, hnames⟩

end Walked

mutual

/-- A walk comes to just what is found without an excluded entry on the way. -/
theorem mem_walked_iff (filter : SourceFilter) : (above : List Text) → (node : Node) →
    node.isSorted = true → ∀ {names : List Text} {found : Node},
      (names, found) ∈ filter.walked above node ↔
        node.descend? names = some found ∧ filter.Admits above names
  | above, .file content, _, names, found => by
    cases names with
    | nil => simp [walked, admits_nil, eq_comm]
    | cons name names => simp [walked, Node.descend?]
  | above, .link target, _, names, found => by
    cases names with
    | nil => simp [walked, admits_nil, eq_comm]
    | cons name names => simp [walked, Node.descend?]
  | above, .dir entries, hsorted, names, found => by
    rw [Node.isSorted] at hsorted
    cases names with
    | nil =>
      have hnone : ([], found) ∉ filter.walkedIn above entries := by
        intro hmem
        obtain ⟨e, -, more, heq⟩ := exists_cons_of_mem_walkedIn hmem
        cases heq
      simp [walked, admits_nil, hnone, eq_comm]
    | cons name names =>
      rw [walked, List.mem_cons, ← mem_walkedIn_iff filter above entries hsorted]
      simp

theorem mem_walkedIn_iff (filter : SourceFilter) : (above : List Text) →
    (entries : List (Text × Node)) → Node.isSortedIn entries = true →
      ∀ {name : Text} {names : List Text} {found : Node},
        (name :: names, found) ∈ filter.walkedIn above entries ↔
          (Node.dir entries).descend? (name :: names) = some found ∧
            filter.Admits above (name :: names)
  | above, [], _, name, names, found => by simp [walkedIn, Table.findIn]
  | above, (key, node) :: rest, hsorted, name, names, found => by
    obtain ⟨hpairs, hall⟩ := Node.isSortedIn_iff.mp hsorted
    obtain ⟨hnode, hrest⟩ := List.forall_mem_cons.mp hall
    obtain ⟨hfirst, hpairs⟩ := List.pairwise_cons.mp hpairs
    have hsortedRest : Node.isSortedIn rest = true := Node.isSortedIn_iff.mpr ⟨hpairs, hrest⟩
    rw [walkedIn, List.mem_append, admits_cons, Node.descend?_dir_cons, Table.findIn]
    by_cases hname : key = name
    · subst hname
      have hnone : (key :: names, found) ∉ filter.walkedIn above rest := by
        intro hmem
        obtain ⟨e, he, more, heq⟩ := exists_cons_of_mem_walkedIn hmem
        obtain ⟨hsame, -⟩ := List.cons.inj heq
        exact List.lt_irrefl e.1 (hsame ▸ hfirst e he)
      rw [or_iff_left hnone, if_pos rfl, Option.bind_some]
      cases hexcluded : filter.excludes key (Text.join '/' (above ++ [key])) with
      | true => simp
      | false => simp [mem_walked_iff filter (above ++ [key]) node hnode]
    · have hother : (name :: names, found) ∉
          if filter.excludes key (Text.join '/' (above ++ [key])) then []
          else (filter.walked (above ++ [key]) node).map fun e => (key :: e.1, e.2) := by
        split <;> simp [hname]
      rw [or_iff_right hother, if_neg hname, ← Node.descend?_dir_cons, ← admits_cons]
      exact mem_walkedIn_iff filter above rest hsortedRest

end

mutual

/-- A walk goes through paths in their order, component by component. -/
theorem pairwise_walked (filter : SourceFilter) : (above : List Text) → (node : Node) →
    node.isSorted = true → (filter.walked above node).Pairwise fun a b => a.1 < b.1
  | above, .file content, _ => by simp [walked]
  | above, .link target, _ => by simp [walked]
  | above, .dir entries, hsorted => by
    rw [Node.isSorted] at hsorted
    rw [walked]
    refine List.pairwise_cons.mpr ⟨fun e he => ?_, pairwise_walkedIn filter above entries hsorted⟩
    obtain ⟨entry, -, more, heq⟩ := exists_cons_of_mem_walkedIn he
    rw [heq]
    exact List.nil_lt_cons entry.1 more

theorem pairwise_walkedIn (filter : SourceFilter) : (above : List Text) →
    (entries : List (Text × Node)) → Node.isSortedIn entries = true →
      (filter.walkedIn above entries).Pairwise fun a b => a.1 < b.1
  | above, [], _ => by simp [walkedIn]
  | above, (key, node) :: rest, hsorted => by
    obtain ⟨hpairs, hall⟩ := Node.isSortedIn_iff.mp hsorted
    obtain ⟨hnode, hrest⟩ := List.forall_mem_cons.mp hall
    obtain ⟨hfirst, hpairs⟩ := List.pairwise_cons.mp hpairs
    have hsortedRest : Node.isSortedIn rest = true := Node.isSortedIn_iff.mpr ⟨hpairs, hrest⟩
    rw [walkedIn]
    refine List.pairwise_append.mpr ⟨?_, pairwise_walkedIn filter above rest hsortedRest, ?_⟩
    · split
      · exact .nil
      · refine List.pairwise_map.mpr ?_
        refine (pairwise_walked filter (above ++ [key]) node hnode).imp fun hlt => ?_
        exact List.cons_lt_cons_iff.mpr (.inr ⟨rfl, hlt⟩)
    · intro a ha b hb
      split at ha
      · contradiction
      · obtain ⟨inner, -, rfl⟩ := List.mem_map.mp ha
        obtain ⟨entry, hentry, more, heq⟩ := exists_cons_of_mem_walkedIn hb
        rw [heq]
        exact List.cons_lt_cons_iff.mpr (.inl (hfirst entry hentry))

end

/-! What a walk finds. -/

/-- A directory that a walk from a root comes to can be looked into. -/
def Opens (root : Text) (e : List Text × Node) : Prop :=
  ∀ entries, e.2 = .dir entries → Text.size (PathText.below root e.1) ≤ Disk.maxPathSize

/-- The path of a source file that a walk from a root comes to. -/
def sourceAt? (root : Text) (e : List Text × Node) : Option Text :=
  match e.2 with
  | .file _ =>
    if isSourceName (PathText.fileName (PathText.below root e.1)) then
      some (PathText.below root e.1)
    else none
  | _ => none

theorem opens_nil {root : Text} {entries : List (Text × Node)} :
    Opens root ([], .dir entries) ↔ Text.size root ≤ Disk.maxPathSize :=
  ⟨fun h => h entries rfl, fun h _ _ => h⟩

theorem append_eq_ok_iff {ε α : Type} {x y : Except ε (List α)} {all : List α} :
    (do let first ← x; let others ← y; .ok (first ++ others)) = .ok all ↔
      ∃ first others, x = .ok first ∧ y = .ok others ∧ all = first ++ others := by
  cases x with
  | error e => exact ⟨nofun, fun ⟨_, _, hx, _⟩ => nomatch hx⟩
  | ok first =>
    cases y with
    | error e => exact ⟨nofun, fun ⟨_, _, _, hy, _⟩ => nomatch hy⟩
    | ok others =>
      constructor
      · intro h
        cases h
        exact ⟨first, others, rfl, rfl, rfl⟩
      · rintro ⟨_, _, hx, hy, rfl⟩
        cases hx
        cases hy
        rfl

mutual

/-- A walk succeeds if it can look into all directories that it comes to. -/
theorem sources_eq_ok_iff (filter : SourceFilter) (root : Text) : (path : Text) →
    (above : List Text) → (∀ s ∈ above, isEntryName s = true) → (node : Node) →
    node.isNamed = true → ∀ {files : List Text},
      filter.sources root path (Text.join '/' above) node = .ok files ↔
        (∀ e ∈ filter.walked above node, Opens path e) ∧
          files = (filter.walked above node).filterMap (sourceAt? path)
  | path, above, _, .file content, _, files => by
    rw [sources, walked, Except.ok.injEq, eq_comm]
    cases hsource : isSourceName (PathText.fileName path) <;>
      simp [Opens, sourceAt?, PathText.below, hsource]
  | path, above, _, .link target, _, files => by
    rw [sources, walked, Except.ok.injEq, eq_comm]
    have hnone : List.filterMap (sourceAt? path) [([], .link target)] = [] := rfl
    simp [Opens, hnone]
  | path, above, habove, .dir entries, hnamed, files => by
    rw [Node.isNamed] at hnamed
    rw [sources, walked, List.forall_mem_cons, opens_nil]
    split
    · next hlong => exact iff_of_false nofun fun h => absurd h.1.1 (Nat.not_le.mpr hlong)
    · next hshort =>
      rw [sourcesIn_eq_ok_iff filter root path above habove entries hnamed,
        and_iff_right (Nat.not_lt.mp hshort)]
      rfl

theorem sourcesIn_eq_ok_iff (filter : SourceFilter) (root : Text) : (path : Text) →
    (above : List Text) → (∀ s ∈ above, isEntryName s = true) → (entries : List (Text × Node)) →
    Node.isNamedIn entries = true → ∀ {files : List Text},
      filter.sourcesIn root path (Text.join '/' above) entries = .ok files ↔
        (∀ e ∈ filter.walkedIn above entries, Opens path e) ∧
          files = (filter.walkedIn above entries).filterMap (sourceAt? path)
  | path, above, _, [], _, files => by
    rw [sourcesIn, walkedIn, Except.ok.injEq, eq_comm]
    simp
  | path, above, habove, (name, node) :: rest, hnamed, files => by
    obtain ⟨⟨hname, hnode⟩, hrest⟩ := List.forall_mem_cons.mp (Node.isNamedIn_iff.mp hnamed)
    have hbelow : ∀ s ∈ above ++ [name], isEntryName s = true :=
      List.forall_mem_append.mpr ⟨habove, by simpa using hname⟩
    have hlater {others : List Text} :
        filter.sourcesIn root path (Text.join '/' above) rest = .ok others ↔
          (∀ e ∈ filter.walkedIn above rest, Opens path e) ∧
            others = (filter.walkedIn above rest).filterMap (sourceAt? path) :=
      sourcesIn_eq_ok_iff filter root path above habove rest (Node.isNamedIn_iff.mpr hrest)
    have hinner {first : List Text} :
        filter.sources root (PathText.join path name) (Text.join '/' (above ++ [name])) node =
            .ok first ↔
          (∀ e ∈ filter.walked (above ++ [name]) node, Opens (PathText.join path name) e) ∧
            first = (filter.walked (above ++ [name]) node).filterMap
              (sourceAt? (PathText.join path name)) :=
      sources_eq_ok_iff filter root (PathText.join path name) (above ++ [name]) hbelow node hnode
    rw [sourcesIn, walkedIn, PathText.join_join habove hname, List.forall_mem_append,
      List.filterMap_append]
    split
    · refine append_eq_ok_iff.trans ⟨?_, ?_⟩
      · rintro ⟨_, others, ⟨⟩, hothers, rfl⟩
        obtain ⟨hopens, rfl⟩ := hlater.mp hothers
        exact ⟨⟨by simp, hopens⟩, rfl⟩
      · rintro ⟨⟨-, hopens⟩, rfl⟩
        exact ⟨[], _, rfl, hlater.mpr ⟨hopens, rfl⟩, rfl⟩
    · rw [List.forall_mem_map, List.filterMap_map]
      refine append_eq_ok_iff.trans ⟨?_, ?_⟩
      · rintro ⟨first, others, hfirst, hothers, rfl⟩
        obtain ⟨hinside, rfl⟩ := hinner.mp hfirst
        obtain ⟨hopens, rfl⟩ := hlater.mp hothers
        exact ⟨⟨hinside, hopens⟩, rfl⟩
      · rintro ⟨⟨hinside, hopens⟩, rfl⟩
        exact ⟨_, _, hinner.mpr ⟨hinside, rfl⟩, hlater.mpr ⟨hopens, rfl⟩, rfl⟩

end

theorem sourceAt?_eq_some_iff {root path : Text} {names : List Text} {node : Node} :
    sourceAt? root (names, node) = some path ↔ (∃ content, node = .file content) ∧
      path = PathText.below root names ∧ isSourceName (PathText.fileName path) = true := by
  cases node with
  | link target => simp [sourceAt?]
  | dir entries => simp [sourceAt?]
  | file content =>
    rw [sourceAt?, Option.ite_none_right_eq_some, Option.some.injEq]
    constructor
    · rintro ⟨hsource, rfl⟩
      exact ⟨⟨content, rfl⟩, rfl, hsource⟩
    · rintro ⟨-, rfl, hsource⟩
      exact ⟨hsource, rfl⟩

theorem append_eq_error {ε α : Type} {x y : Except ε (List α)} {e : ε}
    (h : (do let first ← x; let others ← y; .ok (first ++ others)) = .error e) :
    x = .error e ∨ y = .error e := by
  cases x with
  | error e' => exact .inl h
  | ok first =>
    cases y with
    | error e' => exact .inr h
    | ok others => contradiction

mutual

theorem sources_error (filter : SourceFilter) (root : Text) : (path relative : Text) →
    (node : Node) → ∀ {e : Failure}, filter.sources root path relative node = .error e →
      ∃ path reason, e = .walk root path reason
  | path, relative, .file content, e, h => by simp [sources] at h
  | path, relative, .link target, e, h => by simp [sources] at h
  | path, relative, .dir entries, e, h => by
    rw [sources] at h
    split at h
    · cases h
      exact ⟨path, .nameTooLong, rfl⟩
    · exact sourcesIn_error filter root path relative entries h

theorem sourcesIn_error (filter : SourceFilter) (root : Text) : (path relative : Text) →
    (entries : List (Text × Node)) → ∀ {e : Failure},
      filter.sourcesIn root path relative entries = .error e →
        ∃ path reason, e = .walk root path reason
  | path, relative, [], e, h => by simp [sourcesIn] at h
  | path, relative, (name, node) :: rest, e, h => by
    rw [sourcesIn] at h
    have hrest {e : Failure} : filter.sourcesIn root path relative rest = .error e →
        ∃ path reason, e = .walk root path reason :=
      sourcesIn_error filter root path relative rest
    split at h
    · rcases append_eq_error h with hfirst | hothers
      · contradiction
      · exact hrest hothers
    · rcases append_eq_error h with hfirst | hothers
      · exact sources_error filter root _ _ node hfirst
      · exact hrest hothers

end

end SourceFilter

end Namespacer
