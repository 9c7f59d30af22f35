import Namespacer.Disk.Sources
import Namespacer.Proofs.Disk.Write
import Namespacer.Run.Basic

/-! The shape of a disk: its directories, links and files without what the files hold. Where paths
lead, what is found there and which source files lie below a root depend on the shape alone. -/
namespace Namespacer

open Text

namespace Node

mutual

/-- A node with all files emptied. -/
def bare : Node → Node
  | file _ => file (.text [])
  | link target => link target
  | dir entries => dir (bareIn entries)

def bareIn : List (Text × Node) → List (Text × Node)
  | [] => []
  | (name, node) :: rest => (name, bare node) :: bareIn rest

end

mutual

/-- Whether every directory lists its entries in the order of their names, each name once. -/
def isSorted : Node → Bool
  | file _ => true
  | link _ => true
  | dir entries => isSortedIn entries

def isSortedIn : List (Text × Node) → Bool
  | [] => true
  | (name, node) :: rest =>
    rest.all (fun e => decide (name < e.1)) && isSorted node && isSortedIn rest

end

/-! Looking up and walking through bare nodes. -/

theorem findIn_bareIn (name : Text) (entries : List (Text × Node)) :
    Table.findIn name (bareIn entries) = (Table.findIn name entries).map bare := by
  induction entries with
  | nil => simp [bareIn, Table.findIn]
  | cons e entries ih =>
    obtain ⟨key, node⟩ := e
    rw [bareIn, Table.findIn, Table.findIn, ih]
    split <;> rfl

theorem descend?_bare (node : Node) (names : List Text) :
    (bare node).descend? names = (node.descend? names).map bare := by
  induction names generalizing node with
  | nil => simp
  | cons name names ih =>
    cases node with
    | file content => simp [bare, descend?]
    | link target => simp [bare, descend?]
    | dir entries =>
      rw [bare, descend?_dir_cons, descend?_dir_cons, findIn_bareIn]
      cases Table.findIn name entries with
      | none => rfl
      | some child => exact ih child

theorem outline_bare (node : Node) : (bare node).outline = node.outline := by
  cases node <;> simp [bare, outline]

theorem entriesOf_map_bare (node? : Option Node) :
    entriesOf (node?.map bare) = bareIn (entriesOf node?) := by
  cases node? with
  | none => simp [entriesOf, bareIn]
  | some node => cases node <;> simp [entriesOf, bare, bareIn]

theorem all_bareIn (p : Text → Bool) (entries : List (Text × Node)) :
    (bareIn entries).all (fun e => p e.1) = entries.all fun e => p e.1 := by
  induction entries with
  | nil => simp [bareIn]
  | cons e entries ih =>
    obtain ⟨key, node⟩ := e
    rw [bareIn, List.all_cons, List.all_cons, ih]

mutual

theorem isSorted_bare : (node : Node) → isSorted (bare node) = isSorted node
  | file _ => by simp [bare, isSorted]
  | link _ => by simp [bare]
  | dir entries => by rw [bare, isSorted, isSorted, isSortedIn_bareIn entries]

theorem isSortedIn_bareIn : (entries : List (Text × Node)) →
    isSortedIn (bareIn entries) = isSortedIn entries
  | [] => by simp [bareIn]
  | (name, node) :: rest => by
    rw [bareIn, isSortedIn, isSortedIn, isSorted_bare node, isSortedIn_bareIn rest,
      all_bareIn (fun key => decide (name < key))]

end

end Node

namespace SourceFilter

mutual

theorem sources_bare (filter : SourceFilter) (root : Text) : (path relative : Text) →
    (node : Node) → filter.sources root path relative node.bare =
      filter.sources root path relative node
  | _, _, .file _ => by simp [Node.bare, sources]
  | _, _, .link _ => by simp [Node.bare]
  | path, relative, .dir entries => by
    rw [Node.bare, sources, sources, sourcesIn_bareIn filter root path relative entries]

theorem sourcesIn_bareIn (filter : SourceFilter) (root : Text) : (path relative : Text) →
    (entries : List (Text × Node)) → filter.sourcesIn root path relative (Node.bareIn entries) =
      filter.sourcesIn root path relative entries
  | _, _, [] => by simp [Node.bareIn]
  | path, relative, (name, node) :: rest => by
    rw [Node.bareIn, sourcesIn, sourcesIn, sources_bare filter root _ _ node,
      sourcesIn_bareIn filter root path relative rest]

end

end SourceFilter

namespace Disk

/-- A disk with all files emptied. Two disks have the same shape if these are equal. -/
def bare (disk : Disk) : Disk := { disk with top := Node.bareIn disk.top }

def isSorted (disk : Disk) : Bool := Node.isSortedIn disk.top

theorem node?_bare (disk : Disk) (names : List Text) :
    disk.bare.node? names = (disk.node? names).map Node.bare := by
  have htop : Node.dir disk.bare.top = (Node.dir disk.top).bare := by rw [Node.bare]; rfl
  rw [Disk.node?, htop, Node.descend?_bare, Disk.node?]

theorem sameOutline_bare (disk : Disk) : SameOutline disk disk.bare where
  cwd := rfl
  node? names := by
    rw [node?_bare, Option.map_map]
    congr 1
    funext node
    exact node.outline_bare

theorem isSorted_bare (disk : Disk) : disk.bare.isSorted = disk.isSorted :=
  Node.isSortedIn_bareIn disk.top

theorem probe_bare (disk : Disk) : disk.bare.probe = disk.probe := by
  have hfind (path : Text) : disk.bare.find? path = (disk.find? path).map Node.bare := by
    unfold find?
    rw [locate_eq disk.sameOutline_bare]
    split
    · exact disk.node?_bare _
    · rfl
  have hdir : disk.bare.isDir = disk.isDir := by
    funext path
    unfold isDir
    rw [hfind]
    cases disk.find? path with
    | none => rfl
    | some node => cases node <;> simp [Node.bare]
  have hfile : disk.bare.isFile = disk.isFile := by
    funext path
    unfold isFile
    rw [hfind]
    cases disk.find? path with
    | none => rfl
    | some node => cases node <;> simp [Node.bare]
  rw [probe, hdir, hfile, probe]

theorem sourcesUnder_bare (disk : Disk) (root : Text) (filter : SourceFilter) :
    disk.bare.sourcesUnder root filter = disk.sourcesUnder root filter := by
  unfold sourcesUnder
  simp only [locate_eq disk.sameOutline_bare, node?_bare, Node.entriesOf_map_bare,
    SourceFilter.sourcesIn_bareIn]
  split
  · rfl
  · next names _ =>
    cases disk.node? names with
    | none => rfl
    | some node =>
      cases node with
      | file content => simp [Node.bare, SourceFilter.sources]
      | link target => simp [Node.bare]
      | dir entries =>
        have hbare := filter.sources_bare root root [] (.dir entries)
        rw [Node.bare] at hbare
        simpa [Node.bare] using hbare

theorem cwd_eq_of_bare {disk disk' : Disk} (h : disk'.bare = disk.bare) :
    disk'.cwd = disk.cwd := by
  have hcwd : disk'.bare.cwd = disk.bare.cwd := by rw [h]
  exact hcwd

theorem probe_eq_of_bare {disk disk' : Disk} (h : disk'.bare = disk.bare) :
    disk'.probe = disk.probe := by
  rw [← probe_bare, h, probe_bare]

theorem sourcesUnder_eq_of_bare {disk disk' : Disk} (h : disk'.bare = disk.bare) (root : Text)
    (filter : SourceFilter) : disk'.sourcesUnder root filter = disk.sourcesUnder root filter := by
  rw [← sourcesUnder_bare, h, sourcesUnder_bare]

theorem isSorted_eq_of_bare {disk disk' : Disk} (h : disk'.bare = disk.bare) :
    disk'.isSorted = disk.isSorted := by
  rw [← isSorted_bare, h, isSorted_bare]

end Disk

/-! Putting a file in place of a file. -/

namespace Node

theorem mem_of_findIn {name : Text} {node : Node} {entries : List (Text × Node)}
    (h : Table.findIn name entries = some node) : (name, node) ∈ entries := by
  induction entries with
  | nil => contradiction
  | cons e entries ih =>
    obtain ⟨key, child⟩ := e
    rw [Table.findIn] at h
    split at h
    · next heq =>
      cases h
      exact heq ▸ List.mem_cons_self
    · exact List.mem_cons_of_mem _ (ih h)

theorem isSortedIn_iff {entries : List (Text × Node)} :
    isSortedIn entries = true ↔ entries.Pairwise (fun a b => a.1 < b.1) ∧
      ∀ e ∈ entries, isSorted e.2 = true := by
  induction entries with
  | nil => simp [isSortedIn]
  | cons e entries ih =>
    obtain ⟨name, node⟩ := e
    simp only [isSortedIn, Bool.and_eq_true, List.all_eq_true, decide_eq_true_eq, ih,
      List.pairwise_cons, List.forall_mem_cons]
    constructor
    · rintro ⟨⟨hlt, hnode⟩, hpairs, hall⟩
      exact ⟨⟨hlt, hpairs⟩, hnode, hall⟩
    · rintro ⟨⟨hlt, hpairs⟩, hnode, hall⟩
      exact ⟨⟨hlt, hnode⟩, hpairs, hall⟩

/-- An entry that looks the same from outside leaves a sorted directory as it is. -/
theorem bareIn_insertIn {entries : List (Text × Node)} (h : isSortedIn entries = true)
    {name : Text} {old new : Node} (hfind : Table.findIn name entries = some old)
    (hsame : bare new = bare old) :
    bareIn (Table.insertIn name new entries) = bareIn entries := by
  induction entries with
  | nil => contradiction
  | cons e entries ih =>
    obtain ⟨key, child⟩ := e
    simp only [isSortedIn, Bool.and_eq_true] at h
    rw [Table.findIn] at hfind
    split at hfind
    · next heq =>
      subst heq
      cases hfind
      rw [Table.insertIn, if_neg (List.lt_irrefl key), if_pos rfl, bareIn, bareIn, hsame]
    · next hne =>
      -- a name that is found further on does not come before this one
      have hlt : key < name := by
        simpa using List.all_eq_true.mp h.1.1 _ (mem_of_findIn hfind)
      rw [Table.insertIn, if_neg (List.lt_asymm hlt), if_neg (Ne.symm hne), bareIn, bareIn,
        ih h.2 hfind]

theorem bareIn_place {content : Content} (new : Content) {names : List Text}
    {entries : List (Text × Node)} (hsorted : isSortedIn entries = true)
    (h : (dir entries).descend? names = some (file content)) :
    bareIn (place (file new) names entries) = bareIn entries := by
  induction names generalizing entries with
  | nil => simp at h
  | cons name names ih =>
    rw [descend?_dir_cons] at h
    obtain ⟨child, hchild, hfile⟩ := Option.bind_eq_some_iff.mp h
    cases names with
    | nil =>
      rw [descend?_nil, Option.some.injEq] at hfile
      subst hfile
      exact bareIn_insertIn hsorted hchild (by simp [bare])
    | cons next names =>
      cases child with
      | file other => simp [descend?] at hfile
      | link target => simp [descend?] at hfile
      | dir children =>
        have hinner := ih ((isSortedIn_iff.mp hsorted).2 _ (mem_of_findIn hchild)) hfile
        rw [place, hchild, entriesOf]
        · exact bareIn_insertIn hsorted hchild (by rw [bare, bare, hinner])
        · simp

theorem isSortedIn_insertIn {entries : List (Text × Node)} (h : isSortedIn entries = true)
    (name : Text) {node : Node} (hnode : isSorted node = true) :
    isSortedIn (Table.insertIn name node entries) = true := by
  obtain ⟨hpairs, hall⟩ := isSortedIn_iff.mp h
  refine isSortedIn_iff.mpr ⟨Table.sorted_insertIn name node hpairs, fun e he => ?_⟩
  rcases Table.mem_insertIn he with rfl | he
  · exact hnode
  · exact hall e he

theorem isSortedIn_place {node : Node} (hnode : isSorted node = true) (names : List Text)
    {entries : List (Text × Node)} (h : isSortedIn entries = true) :
    isSortedIn (place node names entries) = true := by
  induction names generalizing entries with
  | nil => simpa [place] using h
  | cons name names ih =>
    cases names with
    | nil => exact isSortedIn_insertIn h name hnode
    | cons next names =>
      rw [place]
      · refine isSortedIn_insertIn h name (ih ?_)
        cases hfind : Table.findIn name entries with
        | none => simp [entriesOf, isSortedIn]
        | some child =>
          have hchild := (isSortedIn_iff.mp h).2 _ (mem_of_findIn hfind)
          cases child with
          | file content => simp [entriesOf, isSortedIn]
          | link target => simp [entriesOf, isSortedIn]
          | dir children => exact hchild
      · simp

/-- A node that is no directory and takes the place of none changes nothing else, as far as the
entries of directories are left out of sight. -/
theorem map_descend?_place_of_ne {β : Type} {view : Node → β}
    (hview : ∀ entries entries', view (dir entries) = view (dir entries')) {node : Node}
    (hnode : ∀ children, node ≠ dir children) {above : List Text} {name : Text}
    {entries siblings : List (Text × Node)}
    (habove : (dir entries).descend? above = some (dir siblings))
    (hname : ∀ children, Table.findIn name siblings ≠ some (dir children)) {names : List Text}
    (hne : names ≠ above ++ [name]) :
    ((dir (place node (above ++ [name]) entries)).descend? names).map view =
      ((dir entries).descend? names).map view := by
  have hbelow {child : Node} (hchild : ∀ children, child ≠ dir children) (n : Text)
      (rest : List Text) : child.descend? (n :: rest) = none := by
    cases child with
    | file content => rfl
    | link target => rfl
    | dir children => exact absurd rfl (hchild children)
  induction above generalizing entries names with
  | nil =>
    cases habove
    cases names with
    | nil => exact congrArg some (hview _ _)
    | cons n names =>
      rw [List.nil_append, place, descend?_dir_cons, descend?_dir_cons, Table.findIn_insertIn]
      by_cases heq : name = n
      · subst heq
        cases names with
        | nil => exact absurd rfl hne
        | cons m names =>
          rw [if_pos rfl, Option.bind_some, hbelow hnode]
          cases hfind : Table.findIn name siblings with
          | none => rfl
          | some child =>
            rw [Option.bind_some, hbelow fun children heq => hname children (heq ▸ hfind)]
      · rw [if_neg heq]
  | cons first above ih =>
    rw [descend?_dir_cons] at habove
    obtain ⟨child, hchild, habove⟩ := Option.bind_eq_some_iff.mp habove
    have hdir : ∃ children, child = dir children := by
      cases child with
      | dir children => exact ⟨children, rfl⟩
      | file content => cases above <;> simp [descend?] at habove
      | link target => cases above <;> simp [descend?] at habove
    obtain ⟨children, rfl⟩ := hdir
    cases names with
    | nil => exact congrArg some (hview _ _)
    | cons n names =>
      rw [List.cons_append, place, descend?_dir_cons, descend?_dir_cons, Table.findIn_insertIn,
        hchild, entriesOf]
      · by_cases heq : first = n
        · subst heq
          rw [if_pos rfl, hchild, Option.bind_some, Option.bind_some]
          exact ih habove fun heq => hne (by rw [heq, List.cons_append])
        · rw [if_neg heq]
      · simp

theorem outline_dir (entries entries' : List (Text × Node)) :
    outline (dir entries) = outline (dir entries') := rfl

end Node
end Namespacer
