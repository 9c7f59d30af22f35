import Namespacer.Disk.Basic

/-! Writing over a regular file. Directories and links stay as they are, so every path still leads
to the place it led to before, and the file that was written holds the new text. -/
namespace Namespacer

open Text

theorem eq_ok_of_toOption {ε α : Type} {x : Except ε α} {a : α} (h : x.toOption = some a) :
    x = .ok a := by
  cases x with
  | error e => contradiction
  | ok b =>
    cases h
    rfl

/-- A node without what a file holds and without the entries of a directory. -/
def Node.outline : Node → Node
  | .file _ => .file (.text [])
  | .link target => .link target
  | .dir _ => .dir []

namespace Node

@[simp] theorem descend?_nil (node : Node) : node.descend? [] = some node := by
  cases node <;> rfl

@[simp] theorem descend?_dir_cons (entries : List (Text × Node)) (name : Text)
    (names : List Text) : (dir entries).descend? (name :: names) =
      (Table.findIn name entries).bind fun child => child.descend? names := rfl

theorem descend?_append (node : Node) (names more : List Text) :
    node.descend? (names ++ more) = (node.descend? names).bind fun n => n.descend? more := by
  induction names generalizing node with
  | nil => simp
  | cons name names ih =>
    cases node with
    | file content => rfl
    | link target => rfl
    | dir entries => simp [ih, Option.bind_assoc]

theorem descend?_place_self (node : Node) {names : List Text} (hne : names ≠ [])
    (entries : List (Text × Node)) :
    (dir (place node names entries)).descend? names = some node := by
  induction names generalizing entries with
  | nil => contradiction
  | cons name names ih =>
    cases names with
    | nil => simp [place, Table.findIn_insertIn]
    | cons next names =>
      rw [place, descend?_dir_cons, Table.findIn_insertIn, if_pos rfl, Option.bind_some]
      · exact ih (by simp) _
      · simp

/-- A file put in the place of a file changes the outline of nothing. -/
theorem outline_descend?_place {content : Content} (new : Content) {names : List Text}
    {entries : List (Text × Node)} (h : (dir entries).descend? names = some (file content))
    (names' : List Text) :
    ((dir (place (file new) names entries)).descend? names').map outline =
      ((dir entries).descend? names').map outline := by
  induction names generalizing entries names' with
  | nil => simp at h
  | cons name names ih =>
    rw [descend?_dir_cons] at h
    obtain ⟨child, hchild, hfile⟩ := Option.bind_eq_some_iff.mp h
    cases names' with
    | nil => simp [outline]
    | cons name' names' =>
      cases names with
      | nil =>
        rw [descend?_nil, Option.some.injEq] at hfile
        subst hfile
        rw [place, descend?_dir_cons, descend?_dir_cons, Table.findIn_insertIn]
        by_cases heq : name = name'
        · subst heq
          rw [if_pos rfl, hchild, Option.bind_some, Option.bind_some]
          cases names' <;> simp [descend?, outline]
        · rw [if_neg heq]
      | cons next names =>
        cases child with
        | file other => simp [descend?] at hfile
        | link target => simp [descend?] at hfile
        | dir children =>
          rw [place, descend?_dir_cons, descend?_dir_cons, Table.findIn_insertIn, hchild, entriesOf]
          · by_cases heq : name = name'
            · subst heq
              rw [if_pos rfl, hchild, Option.bind_some, Option.bind_some]
              exact ih hfile names'
            · rw [if_neg heq]
          · simp

end Node

namespace Disk

/-- Whether two disks differ at most in what their files hold. -/
structure SameOutline (disk disk' : Disk) : Prop where
  cwd : disk'.cwd = disk.cwd
  node? : ∀ names, (disk'.node? names).map Node.outline = (disk.node? names).map Node.outline

theorem node?_append_singleton {disk : Disk} {names : List Text} {entries : List (Text × Node)}
    (h : disk.node? names = some (.dir entries)) (name : Text) :
    disk.node? (names ++ [name]) = Table.findIn name entries := by
  unfold Disk.node? at h ⊢
  rw [Node.descend?_append, h]
  simp

theorem advance_eq {disk disk' : Disk} (h : SameOutline disk disk') (followLast : Bool)
    (place todo : List Text) :
    disk'.advance followLast place todo = disk.advance followLast place todo := by
  induction todo generalizing place with
  | nil => rfl
  | cons step rest ih =>
    have hhere := h.node? place.reverse
    cases hnode : disk.node? place.reverse with
    | none =>
      rw [hnode, Option.map_none, Option.map_eq_none_iff] at hhere
      simp only [advance, hnode, hhere]
    | some node =>
      rw [hnode, Option.map_some, Option.map_eq_some_iff] at hhere
      obtain ⟨node', hnode', houtline⟩ := hhere
      cases node with
      | file content =>
        cases node' <;> simp_all [advance, Node.outline]
      | link target =>
        cases node' <;> simp_all [advance, Node.outline]
      | dir entries =>
        cases node' with
        | file content => simp [Node.outline] at houtline
        | link target => simp [Node.outline] at houtline
        | dir entries' =>
          have hnext := h.node? (place.reverse ++ [step])
          rw [node?_append_singleton hnode, node?_append_singleton hnode'] at hnext
          simp only [advance, hnode, hnode', ih]
          cases hfound : Table.findIn step entries with
          | none =>
            rw [hfound, Option.map_none, Option.map_eq_none_iff] at hnext
            rw [hnext]
          | some child =>
            rw [hfound, Option.map_some, Option.map_eq_some_iff] at hnext
            obtain ⟨child', hfound', hsame⟩ := hnext
            rw [hfound']
            cases child <;> cases child' <;> simp_all [Node.outline]

theorem follow_eq {disk disk' : Disk} (h : SameOutline disk disk') (followLast : Bool)
    (place todo : List Text) (links : Nat) :
    disk'.follow followLast place todo links = disk.follow followLast place todo links := by
  induction links generalizing place todo with
  | zero =>
    unfold follow
    rw [advance_eq h]
  | succ links ih =>
    unfold follow
    simp only [advance_eq h, ih]

theorem locate_eq {disk disk' : Disk} (h : SameOutline disk disk') (path : Text)
    (followLast : Bool) : disk'.locate path followLast = disk.locate path followLast := by
  unfold locate startOf
  simp only [follow_eq h, h.cwd]

/-- What a write does: it finds a regular file and puts the text in its place. -/
theorem write_eq_ok {disk disk' : Disk} {path t : Text} (h : disk.write path t = .ok disk') :
    ∃ names content, disk.locate path true = .ok names ∧
      disk.node? names = some (.file content) ∧
      disk' = disk.placeAt names (.file (.text t)) := by
  unfold write at h
  cases hnames : disk.locate path true with
  | error e => simp [hnames, bind, Except.bind] at h
  | ok names =>
    simp only [hnames, bind, Except.bind] at h
    split at h
    · next content hnode => exact ⟨names, content, rfl, hnode, (Except.ok.inj h).symm⟩
    · contradiction
    · contradiction

theorem write_sameOutline {disk disk' : Disk} {path t : Text}
    (h : disk.write path t = .ok disk') : SameOutline disk disk' := by
  obtain ⟨names, content, -, hnode, rfl⟩ := write_eq_ok h
  exact ⟨rfl, Node.outline_descend?_place (.text t) hnode⟩

theorem read_of_write {disk disk' : Disk} {path t : Text} (h : disk.write path t = .ok disk') :
    disk'.read path = .ok (.text t) := by
  have hsame := locate_eq (write_sameOutline h) path true
  obtain ⟨names, content, hnames, hnode, rfl⟩ := write_eq_ok h
  have hne : names ≠ [] := by
    rintro rfl
    simp [Disk.node?] at hnode
  have hself : (disk.placeAt names (.file (.text t))).node? names = some (.file (.text t)) :=
    Node.descend?_place_self _ hne _
  unfold read
  rw [hsame, hnames]
  simp [bind, Except.bind, hself]

end Disk
end Namespacer
