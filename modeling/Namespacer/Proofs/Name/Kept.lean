import Namespacer.Proofs.Name.MapText
import Namespacer.Proofs.Name.OneToOne

/-! A map whose names are kept in a file. At every point the file holds what the map holds, also
after saves that failed, so that opening it anew takes up where the map stands. -/
namespace Namespacer

/-- Whether a file that is moved to a path is what is read there. -/
def Disk.ReadsBack (disk : Disk) (path : Text) : Prop :=
  ∀ t disk', disk.moveInto path t = .ok disk' → disk'.read path = .ok (.text t)

theorem Disk.present_of_read {disk : Disk} {path : Text} {content : Content}
    (h : disk.read path = .ok content) : disk.present path = true := by
  unfold read at h
  unfold present find?
  cases hnames : disk.locate path true with
  | error e => simp [hnames, bind, Except.bind] at h
  | ok names =>
    simp only [hnames, bind, Except.bind] at h ⊢
    split at h
    · next hnode => rw [hnode, Option.isSome_some]
    · contradiction
    · contradiction

namespace Store

/-! What a file store loads and saves. -/

theorem load_file {disk : Disk} {path t : Text} {entries : Table Text}
    (h : disk.read path = .ok (.text t)) (hparse : MapText.parse? t = some entries) :
    (file path).load disk = .ok (some entries) := by
  simp only [load, Disk.present_of_read h, h, hparse, if_true]

/-- What is taken up from a file is a matter of what is read there. A file that is missing or is no
text of names counts as empty. -/
theorem contents_file (path : Text) (disk : Disk) :
    (file path).contents disk =
      match disk.read path with
      | .ok (.text t) => (MapText.parse? t).getD .empty
      | _ => .empty := by
  cases hread : disk.read path with
  | error e => cases hpresent : disk.present path <;> simp [contents, load, hpresent, hread]
  | ok content =>
    have hpresent := Disk.present_of_read hread
    cases content with
    | binary bytes => simp [contents, load, hpresent, hread]
    | text t =>
      cases hparse : MapText.parse? t <;> simp [contents, load, hpresent, hread, hparse]

theorem contents_file_of_read {path : Text} {disk disk' : Disk}
    (h : disk'.read path = disk.read path) :
    (file path).contents disk' = (file path).contents disk := by
  rw [contents_file, contents_file, h]

theorem replaceFile_ok {disk disk' : Disk} {path t : Text}
    (h : replaceFile disk path t = .ok disk') : disk.moveInto path t = .ok disk' := by
  unfold replaceFile at h
  dsimp only at h
  split at h
  · contradiction
  · split at h
    · contradiction
    · next hmoved =>
      cases h
      exact hmoved

/-- A save moves the new text to the path, or it fails and changes nothing. -/
theorem save_file {path : Text} {entries : Table Text} {disk disk' : Disk} {store' : Store}
    {result : Except Failure Unit} (h : (file path).save entries disk = (result, store', disk')) :
    store' = file path ∧
      ((result = .ok () ∧ disk.moveInto path (MapText.render entries ++ ['\n']) = .ok disk') ∨
        (∃ e, result = .error e) ∧ disk' = disk) := by
  unfold save at h
  dsimp only at h
  split at h
  · next hreplaced =>
    cases h
    exact ⟨rfl, .inl ⟨rfl, replaceFile_ok hreplaced⟩⟩
  · cases h
    exact ⟨rfl, .inr ⟨⟨_, rfl⟩, rfl⟩⟩

theorem load_save {path : Text} {entries : Table Text} {disk disk' : Disk}
    (hback : disk.ReadsBack path)
    (h : disk.moveInto path (MapText.render entries ++ ['\n']) = .ok disk') :
    (file path).load disk' = .ok (some entries) :=
  load_file (hback _ _ h) (MapText.parse?_render entries)

end Store

namespace NameMap

variable {path : Text} {m m' : NameMap} {disk disk' : Disk}

/-- An assignment leaves names and disk as they are, or it moves all names to the path. -/
theorem assign_file {module : ModulePath} {name : Text} {plain : Table ModulePath}
    {result : Except Failure Unit} (hstore : m.store = .file path)
    (h : m.assign disk module name plain = (result, m', disk')) :
    m'.store = .file path ∧
      ((m'.names = m.names ∧ disk' = disk) ∨
        disk.moveInto path (MapText.render m'.names ++ ['\n']) = .ok disk') := by
  unfold assign at h
  split at h
  · obtain ⟨-, hrest⟩ := Prod.mk.inj h
    cases hrest
    exact ⟨hstore, .inl ⟨rfl, rfl⟩⟩
  · split at h
    · cases h
      exact ⟨hstore, .inl ⟨rfl, rfl⟩⟩
    · dsimp only at h
      rw [hstore] at h
      split at h
      · next hsave =>
        cases h
        obtain ⟨hsame, ⟨hok, -⟩ | ⟨-, hdisk⟩⟩ := Store.save_file hsave
        · contradiction
        · exact ⟨hsame, .inl ⟨rfl, hdisk⟩⟩
      · next hsave =>
        cases h
        obtain ⟨hsame, ⟨-, hmoved⟩ | ⟨⟨e, herror⟩, -⟩⟩ := Store.save_file hsave
        · exact ⟨hsame, .inr hmoved⟩
        · contradiction

/-- How a map with its names in a file comes about, with the disk at each point: it is opened,
modules are assigned names, whatever comes of it, and in between the disk may change in other
places. -/
inductive KeptAt (path : Text) : NameMap → Disk → Prop
  | opened {m : NameMap} {disk : Disk} (h : ofStore (.file path) disk = .ok m) :
      KeptAt path m disk
  | elsewhere {m : NameMap} {disk disk' : Disk} (hkept : KeptAt path m disk)
      (h : disk'.read path = disk.read path) : KeptAt path m disk'
  | assigned {m m' : NameMap} {disk disk' : Disk} {module : ModulePath} {name : Text}
      {plain : Table ModulePath} {result : Except Failure Unit} (hkept : KeptAt path m disk)
      (hback : disk.ReadsBack path)
      (h : m.assign disk module name plain = (result, m', disk')) : KeptAt path m' disk'

namespace KeptAt

theorem store (h : KeptAt path m disk) : m.store = .file path := by
  induction h with
  | opened hopened =>
    rw [ofStore_eq] at hopened
    split at hopened
    · cases hopened
      rfl
    · contradiction
  | elsewhere _ _ ih => exact ih
  | assigned _ _ hassign ih => exact (assign_file ih hassign).1

theorem oneToOne (h : KeptAt path m disk) : m.OneToOne := by
  induction h with
  | opened hopened => exact ofStore_oneToOne hopened
  | elsewhere _ _ ih => exact ih
  | assigned _ _ hassign ih => exact assign_oneToOne ih hassign

/-- The file holds what the map holds. -/
theorem contents (h : KeptAt path m disk) : (Store.file path).contents disk = m.names := by
  induction h with
  | opened hopened => exact (ofStore_names hopened).symm
  | elsewhere _ hread ih => rw [Store.contents_file_of_read hread, ih]
  | assigned hkept hback hassign ih =>
    obtain ⟨-, ⟨hnames, hdisk⟩ | hmoved⟩ := assign_file hkept.store hassign
    · rw [hdisk, hnames, ih]
    · rw [Store.contents, Store.load_save hback hmoved]

end KeptAt

/-- A store whose contents are the names of a map that is one to one can be opened, and opening it
gives these names to the same modules. -/
theorem ofStore_of_oneToOne {store : Store} (hone : m.OneToOne)
    (hcontents : store.contents disk = m.names) :
    ∃ fresh, ofStore store disk = .ok fresh ∧ fresh.names = m.names ∧
      ∀ name, fresh.owner? name = m.owner? name := by
  cases hfresh : ofStore store disk with
  | error f =>
    obtain ⟨name, p, q, -, hne, hp, hq⟩ := ofStore_error hfresh
    rw [hcontents] at hp hq
    exact absurd (hone.eq_of_name? hp hq) hne
  | ok fresh =>
    have hnames : fresh.names = m.names := (ofStore_names hfresh).trans hcontents
    refine ⟨fresh, rfl, hnames, fun name => ?_⟩
    rw [Option.ext_iff]
    intro p
    rw [← ofStore_oneToOne hfresh, ← hone, name?, name?, hnames]

/-- What was saved to a file is what is loaded from it. However a map with its names in a file came
about, the file can be opened anew, and a fresh map gives the same names to the same modules. -/
theorem ofStore_kept (path : Text) :
    (∀ entries disk store' disk', disk.ReadsBack path →
      (Store.file path).save entries disk = (.ok (), store', disk') →
      store'.load disk' = .ok (some entries)) ∧
    ∀ m disk, KeptAt path m disk →
      ∃ fresh, ofStore (.file path) disk = .ok fresh ∧ fresh.names = m.names ∧
        ∀ name, fresh.owner? name = m.owner? name := by
  refine ⟨fun entries disk store' disk' hback hsave => ?_,
    fun m disk hkept => ofStore_of_oneToOne hkept.oneToOne hkept.contents⟩
  obtain ⟨rfl, ⟨-, hmoved⟩ | ⟨⟨e, herror⟩, -⟩⟩ := Store.save_file hsave
  · exact Store.load_save hback hmoved
  · contradiction

/-- The first save fails, since the directory of the file is not there yet; the second one writes
the file, and what is loaded from it is what the map holds. -/
theorem ofStore_kept_late_directory :
    let path := "d/n".toList
    let before := Disk.blank []
    let disk : Disk := ⟨[(['d'], .dir [])], []⟩
    ∃ m m' disk' e, ofStore (.file path) before = .ok m ∧
      m.assign before ⟨"./a.js".toList⟩ "A".toList .empty = (.error e, m, before) ∧
      m.assign disk ⟨"./\"b\".js".toList⟩ "B".toList .empty = (.ok (), m', disk') ∧
      m'.store.load disk' = .ok (some m'.names) ∧
      ∃ fresh, ofStore (.file path) disk' = .ok fresh ∧ fresh.names = m'.names := by
  intro path before disk
  have hback : before.ReadsBack path := by
    intro t disk' h
    cases h
  have hback' : disk.ReadsBack path := by
    intro t disk' h
    have hmoved : disk.moveInto path t = .ok ⟨[(['d'], .dir [(['n'], .file (.text t))])], []⟩ := rfl
    cases hmoved.symm.trans h
    rfl
  let m : NameMap := ⟨.empty, .empty, .file path⟩
  have hfailed : m.assign before ⟨"./a.js".toList⟩ "A".toList .empty = (_, m, before) := rfl
  have hsaved : m.assign disk ⟨"./\"b\".js".toList⟩ "B".toList .empty = (.ok (), _, _) := rfl
  have hopened : KeptAt path m before := .opened rfl
  have hlater : KeptAt path m disk := (hopened.assigned hback hfailed).elsewhere rfl
  obtain ⟨fresh, hfresh, hnames, -⟩ := (ofStore_kept path).2 _ _ (hlater.assigned hback' hsaved)
  exact ⟨m, _, _, _, rfl, hfailed, hsaved, (ofStore_kept path).1 _ _ _ _ hback' rfl, fresh, hfresh,
    hnames⟩

end NameMap
end Namespacer
