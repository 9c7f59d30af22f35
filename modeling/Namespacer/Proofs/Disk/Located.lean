import Mathlib.Data.List.Basic
import Namespacer.Proofs.Disk.Write
import Namespacer.Proofs.Path.Form

/-! What is located is there: a path that can be followed to its end leads to a node. -/
namespace Namespacer

open Text

namespace Disk

theorem steps_ne_nil {path : Text} (hne : path ≠ []) : steps path ≠ [] := by
  rcases List.eq_nil_or_concat' path with rfl | ⟨init, c, rfl⟩
  · contradiction
  · unfold steps
    by_cases hslash : c = '/'
    · have hend : endsWith (init ++ [c]) ['/'] = true := endsWith_iff.mpr ⟨init, by rw [hslash]⟩
      simp [hend]
    · have hlast : '/' ∉ [c] := by simpa using Ne.symm hslash
      obtain ⟨pieces, last, -, hsplit⟩ := exists_split_append hlast init
      simp [hsplit]

/-- Where a path is followed to. -/
def Progress.place : Progress → List Text
  | arrived place => place
  | jump place _ _ => place

variable {disk : Disk} {followLast : Bool}

theorem isSome_node?_parent {place : List Text} (h : (disk.node? place.reverse).isSome = true) :
    (disk.node? place.tail.reverse).isSome = true := by
  cases place with
  | nil => exact h
  | cons name place =>
    rw [List.reverse_cons, node?, Node.descend?_append] at h
    rw [List.tail_cons, node?]
    cases hparent : (Node.dir disk.top).descend? place.reverse with
    | none =>
      rw [hparent] at h
      contradiction
    | some node => rfl

theorem isSome_of_advance {place todo : List Text} {progress : Progress}
    (h : disk.advance followLast place todo = .ok progress)
    (hplace : todo = [] → (disk.node? place.reverse).isSome = true) :
    (disk.node? progress.place.reverse).isSome = true := by
  induction todo generalizing place with
  | nil =>
    cases h
    exact hplace rfl
  | cons step rest ih =>
    rw [advance] at h
    split at h
    · next entries hdir =>
      have hhere : (disk.node? place.reverse).isSome = true := by rw [hdir, Option.isSome_some]
      have hchild {node : Node} (hnode : Table.findIn step entries = some node) :
          (disk.node? (step :: place).reverse).isSome = true := by
        rw [List.reverse_cons, node?_append_singleton hdir, hnode, Option.isSome_some]
      split at h
      · exact ih h fun _ => hhere
      · split at h
        · exact ih h fun _ => isSome_node?_parent hhere
        · split at h
          · contradiction
          · split at h
            · contradiction
            · next hlink =>
              split at h
              · cases h
                exact hhere
              · cases h
                exact hchild hlink
            · next hnode => exact ih h fun _ => hchild hnode
    · contradiction

theorem isSome_of_follow {place todo names : List Text} {links : Nat}
    (h : disk.follow followLast place todo links = .ok names)
    (hplace : todo = [] → (disk.node? place.reverse).isSome = true) :
    (disk.node? names).isSome = true := by
  induction links generalizing place todo with
  | zero =>
    unfold follow at h
    split at h
    · contradiction
    · next hadvance =>
      cases h
      exact isSome_of_advance hadvance hplace
    · contradiction
  | succ links ih =>
    unfold follow at h
    split at h
    · contradiction
    · next hadvance =>
      cases h
      exact isSome_of_advance hadvance hplace
    · next hadvance =>
      refine ih h fun _ => ?_
      split
      · rfl
      · exact isSome_of_advance hadvance hplace

theorem isSome_of_locate {path : Text} {names : List Text}
    (h : disk.locate path followLast = .ok names) : (disk.node? names).isSome = true := by
  unfold locate at h
  cases hcheck : checkPath path with
  | error e =>
    rw [hcheck] at h
    contradiction
  | ok _ =>
    rw [hcheck] at h
    refine isSome_of_follow h fun hnone => ?_
    have hpath : path ≠ [] := by
      rintro rfl
      contradiction
    exact absurd hnone (steps_ne_nil hpath)

theorem size_le_of_locate {path : Text} {names : List Text}
    (h : disk.locate path followLast = .ok names) : Text.size path ≤ maxPathSize := by
  unfold locate checkPath at h
  split at h
  · contradiction
  · split at h
    · contradiction
    · split at h
      · contradiction
      · next hshort => exact Nat.not_lt.mp hshort

end Disk
end Namespacer
