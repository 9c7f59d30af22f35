import Namespacer.Proofs.Disk.Shape

/-! The texts of files. A write changes what the paths to one file read and nothing else, so what is
read after any number of writes comes from a file that was written or was there before. -/
namespace Namespacer

open Text

/-- A node without the entries of a directory. -/
def Node.front : Node → Node
  | .dir _ => .dir []
  | node => node

theorem Node.front_dir (entries entries' : List (Text × Node)) :
    front (dir entries) = front (dir entries') := rfl

/-- A file lies in a directory. -/
theorem Node.exists_above {content : Content} {names : List Text} {entries : List (Text × Node)}
    (h : (dir entries).descend? names = some (file content)) :
    ∃ above name siblings, names = above ++ [name] ∧
      (dir entries).descend? above = some (dir siblings) ∧
      Table.findIn name siblings = some (file content) := by
  rcases List.eq_nil_or_concat names with rfl | ⟨above, name, rfl⟩
  · simp at h
  · rw [List.concat_eq_append, descend?_append] at h
    obtain ⟨node, habove, hfile⟩ := Option.bind_eq_some_iff.mp h
    cases node with
    | file other => contradiction
    | link target => contradiction
    | dir siblings =>
      refine ⟨above, name, siblings, List.concat_eq_append, habove, ?_⟩
      simpa using hfile

/-- A file put in the place of a file changes what is found at no other place. -/
theorem Node.front_descend?_place {content : Content} (new : Content) {names : List Text}
    {entries : List (Text × Node)} (h : (dir entries).descend? names = some (file content))
    {names' : List Text} (hne : names' ≠ names) :
    ((dir (place (file new) names entries)).descend? names').map front =
      ((dir entries).descend? names').map front := by
  obtain ⟨above, name, siblings, rfl, habove, hfile⟩ := exists_above h
  exact map_descend?_place_of_ne front_dir (by simp) habove (by simp [hfile]) hne

namespace Disk

namespace SameOutline

variable {disk disk' disk'' : Disk}

theorem refl (disk : Disk) : SameOutline disk disk := ⟨rfl, fun _ => rfl⟩

theorem trans (h : SameOutline disk disk') (h' : SameOutline disk' disk'') :
    SameOutline disk disk'' :=
  ⟨h'.cwd.trans h.cwd, fun names => (h'.node? names).trans (h.node? names)⟩

theorem probe_eq (h : SameOutline disk disk') : disk'.probe = disk.probe := by
  have hfind (path : Text) : (disk'.find? path).map Node.outline =
      (disk.find? path).map Node.outline := by
    unfold find?
    rw [locate_eq h]
    split
    · exact h.node? _
    · rfl
  have hdir (d : Disk) (path : Text) :
      d.isDir path = true ↔ (d.find? path).map Node.outline = some (.dir []) := by
    unfold isDir
    cases d.find? path with
    | none => simp
    | some node => cases node <;> simp [Node.outline]
  have hfile (d : Disk) (path : Text) :
      d.isFile path = true ↔ (d.find? path).map Node.outline = some (.file (.text [])) := by
    unfold isFile
    cases d.find? path with
    | none => simp
    | some node => cases node <;> simp [Node.outline]
  have hdirs : disk'.isDir = disk.isDir := by
    funext path
    rw [Bool.eq_iff_iff, hdir, hdir, hfind]
  have hfiles : disk'.isFile = disk.isFile := by
    funext path
    rw [Bool.eq_iff_iff, hfile, hfile, hfind]
  rw [probe, hdirs, hfiles, probe]

end SameOutline

/-! Reading and writing. -/

theorem read_eq_of_front {disk disk' : Disk} {path path' : Text}
    (hlocate : disk'.locate path' true = disk.locate path true)
    (hnode : ∀ names, disk.locate path true = .ok names →
      (disk'.node? names).map Node.front = (disk.node? names).map Node.front) :
    disk'.read path' = disk.read path := by
  unfold read
  rw [hlocate]
  cases hnames : disk.locate path true with
  | error e => rfl
  | ok names =>
    have hfront := hnode names hnames
    simp only [bind, Except.bind]
    cases h : disk.node? names with
    | none =>
      rw [h, Option.map_none, Option.map_eq_none_iff] at hfront
      rw [hfront]
    | some node =>
      rw [h, Option.map_some, Option.map_eq_some_iff] at hfront
      obtain ⟨node', hnode', hsame⟩ := hfront
      rw [hnode']
      cases node <;> cases node' <;> simp_all [Node.front]

theorem read_of_write_ne {disk disk' : Disk} {path path' t : Text}
    (h : disk.write path t = .ok disk')
    (hne : disk.locate path' true ≠ disk.locate path true) :
    disk'.read path' = disk.read path' := by
  have hsame := locate_eq (write_sameOutline h)
  obtain ⟨names, content, hnames, hnode, rfl⟩ := write_eq_ok h
  refine read_eq_of_front (hsame path' true) fun names' hnames' => ?_
  refine Node.front_descend?_place _ hnode fun heq => hne ?_
  rw [hnames', hnames, heq]

/-- Two paths lead to the same place. -/
def Alias (disk : Disk) (path path' : Text) : Prop :=
  disk.locate path true = disk.locate path' true

theorem Alias.read_eq {disk : Disk} {path path' : Text} (h : disk.Alias path path') :
    disk.read path = disk.read path' :=
  read_eq_of_front h fun _ _ => rfl

theorem SameOutline.alias_iff {disk disk' : Disk} (h : SameOutline disk disk') {path path' : Text} :
    disk'.Alias path path' ↔ disk.Alias path path' := by
  rw [Alias, locate_eq h, locate_eq h, Alias]

/-- Some files, each given by a path to it, come to hold other texts. Of several texts for one file
any may be the one that is there in the end. -/
structure Rewrites (disk : Disk) (texts : List (Text × Text)) (disk' : Disk) : Prop where
  outline : SameOutline disk disk'
  read : ∀ path,
    (disk'.read path = disk.read path ∧ ∀ e ∈ texts, ¬ disk.Alias path e.1) ∨
      ∃ e ∈ texts, disk.Alias path e.1 ∧ disk'.read path = .ok (.text e.2)

namespace Rewrites

variable {disk disk' disk'' : Disk} {file t : Text} {texts texts' : List (Text × Text)}

theorem refl (disk : Disk) : disk.Rewrites [] disk :=
  ⟨.refl disk, fun _ => .inl ⟨rfl, by simp⟩⟩

theorem of_read (h : disk.read file = .ok (.text t)) : disk.Rewrites [(file, t)] disk := by
  refine ⟨.refl disk, fun path => ?_⟩
  by_cases halias : disk.Alias path file
  · exact .inr ⟨(file, t), List.mem_singleton_self _, halias, halias.read_eq.trans h⟩
  · exact .inl ⟨rfl, by simpa using halias⟩

theorem of_write (h : disk.write file t = .ok disk') : disk.Rewrites [(file, t)] disk' := by
  have houtline := write_sameOutline h
  refine ⟨houtline, fun path => ?_⟩
  by_cases halias : disk.Alias path file
  · have hread := (houtline.alias_iff.mpr halias).read_eq.trans (read_of_write h)
    exact .inr ⟨(file, t), List.mem_singleton_self _, halias, hread⟩
  · exact .inl ⟨read_of_write_ne h halias, by simpa using halias⟩

theorem read_self (h : disk.Rewrites [(file, t)] disk') : disk'.read file = .ok (.text t) := by
  rcases h.read file with ⟨-, hnone⟩ | ⟨e, he, -, hread⟩
  · exact absurd rfl (hnone (file, t) (List.mem_singleton_self _))
  · obtain rfl := List.mem_singleton.mp he
    exact hread

theorem read_eq_of_not_alias (h : disk.Rewrites [(file, t)] disk') {path : Text}
    (hne : ¬ disk.Alias path file) : disk'.read path = disk.read path := by
  rcases h.read path with ⟨hsame, -⟩ | ⟨e, he, halias, -⟩
  · exact hsame
  · obtain rfl := List.mem_singleton.mp he
    exact absurd halias hne

theorem trans (h : disk.Rewrites texts disk') (h' : disk'.Rewrites texts' disk'') :
    disk.Rewrites (texts ++ texts') disk'' := by
  refine ⟨h.outline.trans h'.outline, fun path => ?_⟩
  rcases h'.read path with ⟨hsame', hnone'⟩ | ⟨e, he, halias, hread⟩
  · simp only [h.outline.alias_iff] at hnone'
    rcases h.read path with ⟨hsame, hnone⟩ | ⟨e, he, halias, hread⟩
    · refine .inl ⟨hsame'.trans hsame, fun e he => ?_⟩
      exact (List.mem_append.mp he).elim (hnone e) (hnone' e)
    · exact .inr ⟨e, List.mem_append_left _ he, halias, hsame'.trans hread⟩
  · exact .inr ⟨e, List.mem_append_right _ he, h.outline.alias_iff.mp halias, hread⟩

/-- What a file held in between does not count. -/
theorem again {t' : Text} (h : disk.Rewrites [(file, t)] disk')
    (h' : disk'.Rewrites [(file, t')] disk'') : disk.Rewrites [(file, t')] disk'' := by
  refine ⟨h.outline.trans h'.outline, fun path => ?_⟩
  rcases h'.read path with ⟨hsame', hnone'⟩ | ⟨e, he, halias, hread⟩
  · simp only [h.outline.alias_iff] at hnone'
    rcases h.read path with ⟨hsame, -⟩ | ⟨e, he, halias, -⟩
    · exact .inl ⟨hsame'.trans hsame, hnone'⟩
    · obtain rfl := List.mem_singleton.mp he
      exact absurd halias (hnone' (file, t') (List.mem_singleton_self _))
  · exact .inr ⟨e, he, h.outline.alias_iff.mp halias, hread⟩

/-- With one text for each file, the order in which they are written does not matter. -/
theorem read_eq_of_perm {disk₁ disk₂ : Disk} (h₁ : disk.Rewrites texts disk₁)
    (h₂ : disk.Rewrites texts' disk₂) (hperm : texts.Perm texts')
    (hone : ∀ e ∈ texts, ∀ e' ∈ texts, disk.Alias e.1 e'.1 → e = e') (path : Text) :
    disk₁.read path = disk₂.read path := by
  rcases h₁.read path with ⟨hsame, hnone⟩ | ⟨e, he, halias, hread⟩
  · rcases h₂.read path with ⟨hsame', -⟩ | ⟨e', he', halias', -⟩
    · rw [hsame, hsame']
    · exact absurd halias' (hnone e' (hperm.mem_iff.mpr he'))
  · rcases h₂.read path with ⟨-, hnone'⟩ | ⟨e', he', halias', hread'⟩
    · exact absurd halias (hnone' e (hperm.mem_iff.mp he))
    · rw [hread, hread', hone e he e' (hperm.mem_iff.mpr he') (halias.symm.trans halias')]

end Rewrites
end Disk
end Namespacer
