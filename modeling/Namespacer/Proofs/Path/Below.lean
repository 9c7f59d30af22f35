import Mathlib.Data.List.Basic
import Mathlib.Data.List.TakeWhile
import Namespacer.Disk.Sources
import Namespacer.Proofs.Path.Climb
import Namespacer.Proofs.Path.Probed

/-! Paths that lead below a root by the names of entries. Each name is one more component of the
path, and the path below the root consists of the names. -/
namespace Namespacer

open Text

/-- Whether an entry of this name can be named in a path. -/
def isEntryName (name : Text) : Bool :=
  !name.isEmpty && name != ['.'] && name != ['.', '.'] && !name.contains '/'

theorem isEntryName_iff {name : Text} : isEntryName name = true ↔ IsName name ∧ '/' ∉ name := by
  simp [isEntryName, IsName, and_assoc]

namespace PathText

/-- The path to what some names lead to below a root. -/
def below (root : Text) (names : List Text) : Text := names.foldl join root

theorem below_cons (root name : Text) (names : List Text) :
    below root (name :: names) = below (join root name) names := rfl

theorem join_cases {name : Text} (h : '/' ∉ name) (base : Text) :
    (base = [] ∧ join base name = name) ∨
      (∃ front, base = front ++ ['/'] ∧ join base name = front ++ '/' :: name) ∨
      base ≠ [] ∧ ¬ ['/'] <:+ base ∧ join base name = base ++ '/' :: name := by
  unfold join
  rw [isAbsolute_eq_false h, if_neg Bool.false_ne_true]
  split
  · next hend =>
    rw [Bool.or_eq_true, List.isEmpty_iff, endsWith_iff] at hend
    rcases hend with rfl | ⟨front, rfl⟩
    · exact .inl ⟨rfl, rfl⟩
    · exact .inr (.inl ⟨front, rfl, by simp⟩)
  · next hend =>
    rw [Bool.or_eq_true, List.isEmpty_iff, endsWith_iff, not_or] at hend
    exact .inr (.inr ⟨hend.1, hend.2, rfl⟩)

theorem isAbsolute_append {base : Text} (hne : base ≠ []) (t : Text) :
    isAbsolute (base ++ t) = isAbsolute base := by
  cases base with
  | nil => contradiction
  | cons c base => simp [isAbsolute, startsWith, after?, apply_ite]

section Component

variable {name : Text} (h : isEntryName name = true)

include h

theorem isAbsolute_join (base : Text) : isAbsolute (join base name) = isAbsolute base := by
  obtain ⟨-, hslash⟩ := isEntryName_iff.mp h
  rcases join_cases hslash base with ⟨rfl, hjoin⟩ | ⟨front, rfl, hjoin⟩ | ⟨hne, -, hjoin⟩
  · rw [hjoin, isAbsolute_eq_false hslash]
    rfl
  · rw [hjoin, ← List.singleton_append, ← List.append_assoc]
    exact isAbsolute_append (by simp) name
  · rw [hjoin]
    exact isAbsolute_append hne _

theorem head?_split_join (base : Text) :
    (split '/' (join base name)).head? = some ['.'] ↔ (split '/' base).head? = some ['.'] := by
  obtain ⟨⟨-, hdot, -⟩, hslash⟩ := isEntryName_iff.mp h
  have hhead (front back : Text) :
      (split '/' (front ++ '/' :: back)).head? = (split '/' front).head? := by
    obtain ⟨piece, pieces, hsplit⟩ := List.exists_cons_of_ne_nil (split_ne_nil '/' front)
    rw [split_append_cons, hsplit]
    rfl
  rcases join_cases hslash base with ⟨rfl, hjoin⟩ | ⟨front, rfl, hjoin⟩ | ⟨-, -, hjoin⟩
  · rw [hjoin, split_of_not_mem hslash]
    simp [split, splitBy, hdot]
  · rw [hjoin, hhead, hhead front []]
  · rw [hjoin, hhead]

theorem components_join (base : Text) :
    components (join base name) = components base ++ [name] := by
  obtain ⟨⟨hne, hdot, -⟩, hslash⟩ := isEntryName_iff.mp h
  have hnames : names (join base name) = names base ++ [name] := by
    rw [names_join base hslash]
    simp [isVoid, hne, hdot]
  unfold components
  rw [isAbsolute_join h, hnames]
  simp only [head?_split_join h]
  split
  · rfl
  · split <;> rfl

end Component

theorem components_below (root : Text) {names : List Text}
    (h : ∀ name ∈ names, isEntryName name = true) :
    components (below root names) = components root ++ names := by
  induction names generalizing root with
  | nil => exact (List.append_nil _).symm
  | cons name names ih =>
    obtain ⟨hname, hnames⟩ := List.forall_mem_cons.mp h
    rw [below_cons, ih _ hnames, components_join hname, List.append_assoc]
    rfl

/-- Paths below a root are its own paths of names. -/
theorem join_join {above : List Text} (habove : ∀ s ∈ above, isEntryName s = true) {name : Text}
    (h : isEntryName name = true) :
    join (Text.join '/' above) name = Text.join '/' (above ++ [name]) := by
  obtain ⟨-, hslash⟩ := isEntryName_iff.mp h
  rcases List.eq_nil_or_concat' above with rfl | ⟨init, last, rfl⟩
  · rcases join_cases hslash [] with ⟨-, hjoin⟩ | ⟨front, heq, -⟩ | ⟨hne, -, -⟩
    · simp [Text.join, hjoin]
    · simp at heq
    · contradiction
  · obtain ⟨⟨hne, -⟩, hlast⟩ := isEntryName_iff.mp (habove last (by simp))
    obtain ⟨front, hfront⟩ := suffix_join '/' init last
    rcases join_cases hslash (Text.join '/' (init ++ [last])) with
      ⟨hnone, -⟩ | ⟨front', hslashed, -⟩ | ⟨-, -, hjoin⟩
    · simp [← hfront, hne] at hnone
    · -- the last name would end in a slash
      rw [← hfront] at hslashed
      have hend := congrArg List.getLast? hslashed
      rw [List.getLast?_append_of_ne_nil _ hne, List.getLast?_concat] at hend
      exact absurd (List.mem_of_getLast? hend) hlast
    · rw [hjoin, join_concat (List.append_ne_nil_of_right_ne_nil init (List.cons_ne_nil last []))]

/-- An extension is what follows the last dot. -/
theorem extension?_eq_some_iff {name ending : Text} :
    extension? name = some ending ↔ '.' ∉ ending ∧ ∃ stem ≠ [], name = stem ++ '.' :: ending := by
  constructor
  · intro h
    unfold extension? at h
    split at h
    · next d c rest hdrop =>
      cases h
      have hdot : d = '.' := by
        have hhead := List.head?_dropWhile_not (· != '.') name.reverse
        rw [hdrop] at hhead
        simpa using hhead
      have hcut := List.takeWhile_append_dropWhile (p := (· != '.')) (l := name.reverse)
      rw [hdrop, hdot] at hcut
      refine ⟨fun hmem => ?_, (c :: rest).reverse, by simp, ?_⟩
      · simpa using List.mem_takeWhile_imp (List.mem_reverse.mp hmem)
      · simpa using (congrArg List.reverse hcut).symm
    · contradiction
  · rintro ⟨hdot, stem, hne, rfl⟩
    have hending : ∀ c ∈ ending.reverse, (c != '.') = true := by
      intro c hc
      simp only [bne_iff_ne]
      rintro rfl
      exact hdot (List.mem_reverse.mp hc)
    obtain ⟨c, rest, hstem⟩ := List.exists_cons_of_ne_nil (List.reverse_ne_nil_iff.mpr hne)
    rw [extension?, List.reverse_append, List.reverse_cons, List.append_assoc,
      List.dropWhile_append_of_pos hending, List.takeWhile_append_of_pos hending, hstem]
    simp

end PathText

theorem isSourceName_iff {name : Text} :
    isSourceName name = true ↔
      ∃ stem ≠ [], ∃ ending ∈ sourceExtensions, name = stem ++ '.' :: ending := by
  have hdots : ∀ ending ∈ sourceExtensions, '.' ∉ ending := by decide
  unfold isSourceName
  constructor
  · intro h
    split at h
    · next ending hending =>
      obtain ⟨-, stem, hne, rfl⟩ := PathText.extension?_eq_some_iff.mp hending
      exact ⟨stem, hne, ending, by simpa using h, rfl⟩
    · contradiction
  · rintro ⟨stem, hne, ending, hending, rfl⟩
    rw [PathText.extension?_eq_some_iff.mpr ⟨hdots ending hending, stem, hne, rfl⟩]
    simpa using hending

end Namespacer
