import Namespacer.Proofs.Disk.Evolution
import Namespacer.Proofs.Disk.Texts

/-! Paths apart from a file that is replaced as a whole. Such a file comes to lie in its directory
in place of whatever file or link had its name. A path that neither leads there nor goes through
there does not notice. -/
namespace Namespacer

open Text

/-- What looks like a directory is one. -/
theorem Node.exists_dir_of_outline {node? node'? : Option Node}
    (h : node'?.map outline = node?.map outline) {entries' : List (Text × Node)}
    (hdir : node'? = some (.dir entries')) : ∃ entries, node? = some (.dir entries) := by
  rw [hdir, Option.map_some, eq_comm, Option.map_eq_some_iff] at h
  obtain ⟨node, hnode, hsame⟩ := h
  cases node with
  | file content => simp [outline] at hsame
  | link target => simp [outline] at hsame
  | dir entries => exact ⟨entries, hnode⟩

namespace Disk

/-- Where a file that is moved to a path comes to lie. -/
def landing? (disk : Disk) (path : Text) : Option (List Text) :=
  match disk.holder path with
  | .ok (pieces, names) => pieces.getLast?.map fun name => names ++ [name]
  | .error _ => none

/-- Whether a path does not lead to where a file that is moved to `stored` comes to lie, and goes on
leading where it leads when one has been moved there. -/
def Apart (disk : Disk) (stored path : Text) : Prop :=
  ∀ t disk', disk.moveInto stored t = .ok disk' →
    disk.landing? stored ≠ (disk.locate path true).toOption ∧
      disk'.locate path true = disk.locate path true

section

variable {disk disk' : Disk} {stored t : Text}

theorem landing?_eq_some {place : List Text} (h : disk.landing? stored = some place) :
    ∃ pieces names name, disk.holder stored = .ok (pieces, names) ∧
      pieces.getLast? = some name ∧ place = names ++ [name] := by
  unfold landing? at h
  split at h
  · next pieces names hholder =>
    obtain ⟨name, hname, rfl⟩ := Option.map_eq_some_iff.mp h
    exact ⟨pieces, names, name, hholder, hname, rfl⟩
  · contradiction

/-- The file lies at its place afterwards, and nothing else has changed. -/
theorem exists_landing (h : disk.moveInto stored t = .ok disk') :
    ∃ place, disk.landing? stored = some place ∧ disk'.node? place = some (.file (.text t)) ∧
      ∀ {β : Type} {view : Node → β},
        (∀ entries entries', view (.dir entries) = view (.dir entries')) →
        ∀ names, names ≠ place →
          (disk'.node? names).map view = (disk.node? names).map view := by
  obtain ⟨pieces, names, entries, name, hholder, hnode, hname, hfree, rfl⟩ := moveInto_eq_ok h
  refine ⟨names ++ [name], ?_, Node.descend?_place_self _ (by simp) _, fun hview others hne => ?_⟩
  · rw [landing?, hholder]
    dsimp only
    rw [hname, Option.map_some]
  · exact Node.map_descend?_place_of_ne hview (by simp) hnode hfree hne

theorem cwd_of_moveInto (h : disk.moveInto stored t = .ok disk') : disk'.cwd = disk.cwd := by
  obtain ⟨_, _, _, _, -, -, -, -, rfl⟩ := moveInto_eq_ok h
  rfl

/-- No path comes to lead to another place than that of the file. -/
theorem locate_of_moveInto (h : disk.moveInto stored t = .ok disk') {path : Text}
    {names : List Text} (hnames : disk'.locate path true = .ok names) :
    disk.locate path true = .ok names ∨ disk.landing? stored = some names := by
  obtain ⟨place, hplace, hfile, hsame⟩ := exists_landing h
  unfold locate startOf at hnames ⊢
  rw [cwd_of_moveInto h] at hnames
  cases hcheck : checkPath path with
  | error e =>
    rw [hcheck] at hnames
    cases hnames
  | ok _ =>
    rw [hcheck] at hnames
    rw [hplace]
    rcases follow_of_placed (hsame Node.outline_dir) hfile hnames with hold | rfl
    · exact .inl hold
    · exact .inr rfl

/-- A path apart from the file reads what it read. -/
theorem Apart.read_of_moveInto {path : Text} (hapart : disk.Apart stored path)
    (h : disk.moveInto stored t = .ok disk') : disk'.read path = disk.read path := by
  obtain ⟨hne, hlocate⟩ := hapart t disk' h
  obtain ⟨place, hplace, -, hfront⟩ := exists_landing h
  refine read_eq_of_front hlocate fun names hnames => hfront Node.front_dir names ?_
  rintro rfl
  rw [hplace, hnames] at hne
  exact hne rfl

/-! Being apart is a matter of directories and links. -/

theorem holder_eq (h : SameOutline disk disk') (path : Text) :
    disk'.holder path = disk.holder path := by
  unfold holder startOf
  simp only [follow_eq h, h.cwd]

theorem landing?_eq (h : SameOutline disk disk') (path : Text) :
    disk'.landing? path = disk.landing? path := by
  rw [landing?, holder_eq h, landing?]

/-- Whether a file can be moved to a path does not depend on what files hold. -/
theorem exists_moveInto (h : SameOutline disk disk') {moved' : Disk}
    (hmoved : disk'.moveInto stored t = .ok moved') :
    ∃ moved, disk.moveInto stored t = .ok moved := by
  obtain ⟨pieces, names, entries', name, hholder', hnode', hname, hfree', -⟩ :=
    moveInto_eq_ok hmoved
  have hholder : disk.holder stored = .ok (pieces, names) := by rw [← holder_eq h, hholder']
  obtain ⟨entries, hnode⟩ := Node.exists_dir_of_outline (h.node? names) hnode'
  have hentry := h.node? (names ++ [name])
  rw [node?_append_singleton hnode, node?_append_singleton hnode'] at hentry
  have hfree (children : List (Text × Node)) :
      Table.findIn name entries ≠ some (.dir children) := by
    intro hfind
    obtain ⟨children', hfind'⟩ := Node.exists_dir_of_outline hentry.symm hfind
    exact hfree' children' hfind'
  unfold moveInto at hmoved ⊢
  simp only [hholder, hholder', hnode, hnode', hname, bind, Except.bind] at hmoved ⊢
  grind

theorem SameOutline.moveInto {t' : Text} {moved moved' : Disk} (h : SameOutline disk disk')
    (hmoved : disk.moveInto stored t = .ok moved)
    (hmoved' : disk'.moveInto stored t' = .ok moved') : SameOutline moved moved' := by
  obtain ⟨place, hplace, hfile, hsame⟩ := exists_landing hmoved
  obtain ⟨place', hplace', hfile', hsame'⟩ := exists_landing hmoved'
  rw [landing?_eq h, hplace, Option.some.injEq] at hplace'
  subst hplace'
  refine ⟨by rw [cwd_of_moveInto hmoved', cwd_of_moveInto hmoved, h.cwd], fun names => ?_⟩
  by_cases hnames : names = place
  · rw [hnames, hfile, hfile']
    rfl
  · rw [hsame Node.outline_dir names hnames, hsame' Node.outline_dir names hnames, h.node?]

theorem Apart.of_sameOutline {path : Text} (hapart : disk.Apart stored path)
    (h : SameOutline disk disk') : disk'.Apart stored path := by
  intro t moved' hmoved'
  obtain ⟨moved, hmoved⟩ := exists_moveInto h hmoved'
  obtain ⟨hne, hlocate⟩ := hapart t moved hmoved
  rw [landing?_eq h, locate_eq h, locate_eq (h.moveInto hmoved hmoved')]
  exact ⟨hne, hlocate⟩

/-- A file that is moved to the path once more takes the place of the first one. -/
theorem moveInto_again {t' : Text} {disk'' : Disk} (h : disk.moveInto stored t = .ok disk')
    (h' : disk'.moveInto stored t' = .ok disk'') :
    disk'.landing? stored = disk.landing? stored ∧ SameOutline disk' disk'' := by
  obtain ⟨place, hplace, hfile, hsame⟩ := exists_landing h
  obtain ⟨place', hplace', hfile', hsame'⟩ := exists_landing h'
  have hlanding : place' = place := by
    obtain ⟨_, names, name, hholder, hname, rfl⟩ := landing?_eq_some hplace
    obtain ⟨_, names', name', hholder', hname', rfl⟩ := landing?_eq_some hplace'
    obtain ⟨rfl, hfollow⟩ := holder_eq_ok_iff.mp hholder
    obtain ⟨rfl, hfollow'⟩ := holder_eq_ok_iff.mp hholder'
    rw [startOf, cwd_of_moveInto h, ← startOf] at hfollow'
    rcases follow_of_placed (hsame Node.outline_dir) hfile hfollow' with hold | rfl
    · rw [Except.ok.inj (hold.symm.trans hfollow), Option.some.inj (hname.symm.trans hname')]
    · -- the directory would be the file that was moved before
      obtain ⟨_, _, _, _, hagain, hdir, -⟩ := moveInto_eq_ok h'
      rw [hholder'] at hagain
      cases hagain
      rw [hfile] at hdir
      cases hdir
  subst hlanding
  refine ⟨hplace'.trans hplace.symm, cwd_of_moveInto h', fun names => ?_⟩
  by_cases hnames : names = place'
  · rw [hnames, hfile, hfile']
    rfl
  · exact hsame' Node.outline_dir names hnames

theorem Apart.of_moveInto {path : Text} (hapart : disk.Apart stored path)
    (h : disk.moveInto stored t = .ok disk') : disk'.Apart stored path := by
  intro t' disk'' h'
  obtain ⟨hlanding, hsame⟩ := moveInto_again h h'
  obtain ⟨hne, hlocate⟩ := hapart t disk' h
  rw [hlanding, hlocate, locate_eq hsame, hlocate]
  exact ⟨hne, rfl⟩

end

end Disk
end Namespacer
