import Namespacer.Proofs.Disk.Shape

/-! How a disk changes in a run. Files are written over, which keeps its shape, and the names of
modules may be kept in a file. Keeping them there for the first time may change the shape; from then
on it stays. -/
namespace Namespacer

open Text

namespace Disk

/-! Writing over a file. -/

theorem bare_placeAt {disk : Disk} (hsorted : disk.isSorted = true) {names : List Text}
    {content : Content} (h : disk.node? names = some (.file content)) (new : Content) :
    (disk.placeAt names (.file new)).bare = disk.bare := by
  unfold placeAt bare
  rw [Node.bareIn_place new hsorted h]

theorem bare_of_write {disk disk' : Disk} (hsorted : disk.isSorted = true) {path t : Text}
    (h : disk.write path t = .ok disk') : disk'.bare = disk.bare := by
  obtain ⟨names, content, -, hnode, rfl⟩ := write_eq_ok h
  exact bare_placeAt hsorted hnode _

/-! Moving a file to a path. -/

/-- Where a file is moved to: the directory, and the name there, which no directory has. -/
theorem moveInto_eq_ok {disk disk' : Disk} {path t : Text} (h : disk.moveInto path t = .ok disk') :
    ∃ pieces names entries name, disk.holder path = .ok (pieces, names) ∧
      disk.node? names = some (.dir entries) ∧ pieces.getLast? = some name ∧
      (∀ children, Table.findIn name entries ≠ some (.dir children)) ∧
      disk' = disk.placeAt (names ++ [name]) (.file (.text t)) := by
  unfold moveInto at h
  simp only [bind, Except.bind] at h
  split at h
  · contradiction
  · cases hcheck : checkPath path with
    | error e => simp [hcheck] at h
    | ok _ =>
      cases hholder : disk.holder path with
      | error e => simp [hcheck, hholder] at h
      | ok found =>
        obtain ⟨pieces, names⟩ := found
        simp only [hcheck, hholder] at h
        split at h
        · next entries hnode =>
          split at h
          · contradiction
          · next name hname =>
            split at h
            · contradiction
            · split at h
              · contradiction
              · split at h
                · contradiction
                · split at h
                  · contradiction
                  · next hfile =>
                    refine ⟨pieces, names, entries, name, rfl, hnode, hname, ?_,
                      (Except.ok.inj h).symm⟩
                    exact fun children heq => hfile children heq
        · contradiction

/-- Whether a file lies where a path leads, if its directory is there. -/
def Holds (disk : Disk) (path : Text) : Prop :=
  ∀ pieces names entries name, disk.holder path = .ok (pieces, names) →
    disk.node? names = some (.dir entries) → pieces.getLast? = some name →
    ∃ content, Table.findIn name entries = some (.file content)

theorem holder_eq_ok_iff {disk : Disk} {path : Text} {pieces names : List Text} :
    disk.holder path = .ok (pieces, names) ↔
      pieces = (split '/' path).filter (fun piece => !piece.isEmpty) ∧
        disk.follow true (disk.startOf path).reverse pieces.dropLast maxLinks = .ok names := by
  unfold holder
  simp only [bind, Except.bind]
  constructor
  · intro h
    split at h
    · contradiction
    · next found hfollow =>
      cases h
      exact ⟨rfl, hfollow⟩
  · rintro ⟨rfl, hfollow⟩
    rw [hfollow]

theorem bare_of_moveInto {disk disk' : Disk} (hsorted : disk.isSorted = true) {path t : Text}
    (hholds : disk.Holds path) (h : disk.moveInto path t = .ok disk') :
    disk'.bare = disk.bare := by
  obtain ⟨pieces, names, entries, name, hholder, hnode, hname, -, rfl⟩ := moveInto_eq_ok h
  obtain ⟨content, hcontent⟩ := hholds pieces names entries name hholder hnode hname
  have hfile : disk.node? (names ++ [name]) = some (.file content) := by
    rw [node?_append_singleton hnode, hcontent]
  exact bare_placeAt hsorted hfile _

theorem isSorted_of_moveInto {disk disk' : Disk} (hsorted : disk.isSorted = true) {path t : Text}
    (h : disk.moveInto path t = .ok disk') : disk'.isSorted = true := by
  obtain ⟨_, _, _, _, -, -, -, -, rfl⟩ := moveInto_eq_ok h
  exact Node.isSortedIn_place (by simp [Node.isSorted]) _ hsorted

theorem holds_of_bare {disk disk' : Disk} (hbare : disk'.bare = disk.bare) {path : Text}
    (h : disk.Holds path) : disk'.Holds path := by
  have hcwd : disk'.cwd = disk.cwd := cwd_eq_of_bare hbare
  have hfollow (place todo : List Text) (links : Nat) :
      disk'.follow true place todo links = disk.follow true place todo links := by
    rw [← follow_eq disk'.sameOutline_bare, hbare, follow_eq disk.sameOutline_bare]
  intro pieces names entries' name hholder hnode' hname
  rw [holder_eq_ok_iff, hfollow, startOf, hcwd, ← startOf, ← holder_eq_ok_iff] at hholder
  have hhere : (disk.node? names).map Node.bare = (disk'.node? names).map Node.bare := by
    rw [← node?_bare, ← node?_bare, hbare]
  rw [hnode', Option.map_some, Option.map_eq_some_iff] at hhere
  obtain ⟨node, hnode, hsame⟩ := hhere
  cases node with
  | file content => simp [Node.bare] at hsame
  | link target => simp [Node.bare] at hsame
  | dir entries =>
    obtain ⟨content, hcontent⟩ := h pieces names entries name hholder hnode hname
    simp only [Node.bare, Node.dir.injEq] at hsame
    have hentry := Node.findIn_bareIn name entries'
    rw [← hsame, Node.findIn_bareIn, hcontent] at hentry
    simp only [Option.map_some] at hentry
    obtain ⟨child, hchild, hfile⟩ := Option.map_eq_some_iff.mp hentry.symm
    cases child with
    | file content' => exact ⟨content', hchild⟩
    | link target => simp [Node.bare] at hfile
    | dir children => simp [Node.bare] at hfile

/-! Paths on a disk where a file has come to lie at a place. -/

section Placed

variable {disk disk' : Disk} {place : List Text} {content : Content}
  (houtline : ∀ names, names ≠ place →
    (disk'.node? names).map Node.outline = (disk.node? names).map Node.outline)
  (hplace : disk'.node? place = some (.file content))

include houtline hplace

/-- A path leads where it led before, or to the file. -/
theorem advance_of_placed {followLast : Bool} {here todo : List Text} {progress : Progress}
    (h : disk'.advance followLast here todo = .ok progress) :
    disk.advance followLast here todo = .ok progress ∨ progress = .arrived place.reverse := by
  induction todo generalizing here with
  | nil => exact .inl h
  | cons step rest ih =>
    rw [advance] at h
    split at h
    · next entries' hnode' =>
      have hhere : here.reverse ≠ place := by
        intro heq
        rw [heq, hplace] at hnode'
        cases hnode'
      have hsame := houtline _ hhere
      rw [hnode', Option.map_some, eq_comm, Option.map_eq_some_iff] at hsame
      obtain ⟨node, hnode, hdir⟩ := hsame
      cases node with
      | file content => simp [Node.outline] at hdir
      | link target => simp [Node.outline] at hdir
      | dir entries =>
        rw [advance, hnode]
        dsimp only
        split at h
        · next hdot =>
          rw [if_pos hdot]
          exact ih h
        · next hdot =>
          rw [if_neg hdot]
          split at h
          · next hup =>
            rw [if_pos hup]
            exact ih h
          · next hup =>
            rw [if_neg hup]
            split at h
            · contradiction
            · next hsize =>
              rw [if_neg hsize]
              by_cases hlast : here.reverse ++ [step] = place
              · -- the file is the end of the path, or else the path ends in failure
                rw [← node?_append_singleton hnode', hlast, hplace] at h
                cases rest with
                | nil =>
                  cases h
                  exact .inr (by rw [← hlast]; simp)
                | cons next rest =>
                  rw [advance, List.reverse_cons, hlast, hplace] at h
                  contradiction
              · have hentry := houtline _ hlast
                rw [node?_append_singleton hnode, node?_append_singleton hnode'] at hentry
                cases hfind' : Table.findIn step entries' with
                | none => simp [hfind'] at h
                | some child' =>
                  rw [hfind', Option.map_some, eq_comm, Option.map_eq_some_iff] at hentry
                  obtain ⟨child, hfind, hchild⟩ := hentry
                  rw [hfind'] at h
                  rw [hfind]
                  cases child' <;> cases child <;> simp [Node.outline] at hchild
                  · exact ih h
                  · subst hchild
                    exact .inl h
                  · exact ih h
    · contradiction

theorem follow_of_placed {followLast : Bool} {here todo names : List Text} {links : Nat}
    (h : disk'.follow followLast here todo links = .ok names) :
    disk.follow followLast here todo links = .ok names ∨ names = place := by
  induction links generalizing here todo with
  | zero =>
    unfold follow at h ⊢
    split at h
    · contradiction
    · next hadvance =>
      rcases advance_of_placed houtline hplace hadvance with hold | hfile
      · exact .inl (by rw [hold]; exact h)
      · cases hfile
        exact .inr (by simpa using (Except.ok.inj h).symm)
    · contradiction
  | succ links ih =>
    unfold follow at h ⊢
    split at h
    · contradiction
    · next hadvance =>
      rcases advance_of_placed houtline hplace hadvance with hold | hfile
      · exact .inl (by rw [hold]; exact h)
      · cases hfile
        exact .inr (by simpa using (Except.ok.inj h).symm)
    · next hadvance =>
      rcases advance_of_placed houtline hplace hadvance with hold | hfile
      · rw [hold]
        exact ih h
      · contradiction

end Placed

/-- A file that was moved to a path lies there. -/
theorem holds_of_moveInto {disk disk' : Disk} {path t : Text}
    (h : disk.moveInto path t = .ok disk') : disk'.Holds path := by
  obtain ⟨pieces, names, entries, name, hholder, hnode, hname, hfree, rfl⟩ := moveInto_eq_ok h
  have hplace : (disk.placeAt (names ++ [name]) (.file (.text t))).node? (names ++ [name]) =
      some (.file (.text t)) := Node.descend?_place_self _ (by simp) _
  have houtline (others : List Text) (hne : others ≠ names ++ [name]) :
      ((disk.placeAt (names ++ [name]) (.file (.text t))).node? others).map Node.outline =
        (disk.node? others).map Node.outline :=
    Node.map_descend?_place_of_ne Node.outline_dir (by simp) hnode hfree hne
  intro pieces' names' entries' name' hholder' hnode' hname'
  obtain ⟨rfl, hfollow⟩ := holder_eq_ok_iff.mp hholder
  obtain ⟨rfl, hfollow'⟩ := holder_eq_ok_iff.mp hholder'
  obtain rfl : name = name' := Option.some.inj (hname.symm.trans hname')
  rcases follow_of_placed houtline hplace hfollow' with hsame | rfl
  · obtain rfl : names = names' := Except.ok.inj (hfollow.symm.trans hsame)
    exact ⟨.text t, by rw [← node?_append_singleton hnode', hplace]⟩
  · rw [hplace] at hnode'
    cases hnode'

/-! A whole run. -/

/-- What a run does to a disk, seen from outside, if it keeps names in the file at `path?`: the
shape stays once a file lies there, and is the old one as long as none was moved there. -/
structure Evolves (path? : Option Text) (disk disk' : Disk) : Prop where
  sorted : disk'.isSorted = true
  cwd : disk'.cwd = disk.cwd
  shape : disk'.bare = disk.bare ∨ ∃ path, path? = some path ∧ disk'.Holds path
  settled : ∀ path, path? = some path → disk.Holds path → disk'.bare = disk.bare

namespace Evolves

variable {path? : Option Text} {disk disk' disk'' : Disk}

theorem of_bare (hsorted : disk.isSorted = true) (h : disk'.bare = disk.bare) :
    Evolves path? disk disk' where
  sorted := (isSorted_eq_of_bare h).trans hsorted
  cwd := cwd_eq_of_bare h
  shape := .inl h
  settled _ _ _ := h

theorem of_moveInto (hsorted : disk.isSorted = true) {path t : Text} (hpath : path? = some path)
    (h : disk.moveInto path t = .ok disk') : Evolves path? disk disk' where
  sorted := isSorted_of_moveInto hsorted h
  cwd := by
    obtain ⟨_, _, _, _, -, -, -, -, rfl⟩ := moveInto_eq_ok h
    rfl
  shape := .inr ⟨path, hpath, holds_of_moveInto h⟩
  settled path' hpath' hholds := by
    obtain rfl : path = path' := Option.some.inj (hpath.symm.trans hpath')
    exact bare_of_moveInto hsorted hholds h

theorem trans (h : Evolves path? disk disk') (h' : Evolves path? disk' disk'') :
    Evolves path? disk disk'' where
  sorted := h'.sorted
  cwd := h'.cwd.trans h.cwd
  shape := by
    rcases h'.shape with hsame' | hholds'
    · rcases h.shape with hsame | ⟨path, hpath, hholds⟩
      · exact .inl (hsame'.trans hsame)
      · exact .inr ⟨path, hpath, holds_of_bare hsame' hholds⟩
    · exact .inr hholds'
  settled path hpath hholds := by
    have hsame := h.settled path hpath hholds
    exact (h'.settled path hpath (holds_of_bare hsame hholds)).trans hsame

/-- In between, a disk has the shape that it had in the beginning or the one it has in the end. -/
theorem bare_or_bare (h : Evolves path? disk disk') (h' : Evolves path? disk' disk'') :
    disk'.bare = disk.bare ∨ disk'.bare = disk''.bare := by
  rcases h.shape with hsame | ⟨path, hpath, hholds⟩
  · exact .inl hsame
  · exact .inr (h'.settled path hpath hholds).symm

end Evolves
end Disk
end Namespacer
