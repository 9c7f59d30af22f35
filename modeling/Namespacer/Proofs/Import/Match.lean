import Namespacer.Proofs.Import.Bytes
import Namespacer.Proofs.Import.Scan
import Namespacer.Proofs.Text.Split

/-! Matching an import statement at a byte offset, and the imports of a text as matches. A match is
exactly a statement of the grammar, with the bytes that it takes up; the imports of a text are
disjoint matches at the starts of words, and no other match starts outside of them. -/
namespace Namespacer

open Text

/-- What separates the entries of a braced list. -/
def Binding.separates (c : Char) : Bool := c == ',' || isBlank c

theorem Binding.prefix_text_iff {b : Binding} (h : b.Proper) :
    ['{'] <+: b.text ↔ ∃ inner, b = .braces inner := by
  cases b with
  | braces inner => exact ⟨fun _ => ⟨inner, rfl⟩, fun _ => ⟨inner ++ ['}'], rfl⟩⟩
  | name id =>
    refine ⟨fun hopen => ?_, fun ⟨_, hbraces⟩ => by contradiction⟩
    have hname := h.2 '{' (hopen.subset List.mem_cons_self)
    contradiction

theorem Statement.Written.proper {s : Statement} {w : Text} (h : s.Written w) :
    s.binding.Proper := by
  cases h with
  | intro hbinding => exact hbinding

namespace Import

/-- The import statement that begins at a byte offset of a source text, with its byte range. -/
def matchAt? (source : Text) (p : Nat) : Option Import :=
  let t := dropBytes p source
  (Statement.read? t).map fun r =>
    { r.1 with start := p, stop := p + size (t.take (t.length - r.2.length)) }

theorem matchAt?_eq_some_iff {x t : Text} {i : Import} :
    matchAt? (x ++ t) (size x) = some i ↔
      ∃ w rest, t = w ++ rest ∧ i.toStatement.Written w ∧ i.start = size x ∧
        i.stop = size (x ++ w) := by
  simp only [matchAt?, dropBytes_size_append, Option.map_eq_some_iff, Prod.exists,
    Statement.read?_eq_some_iff]
  constructor
  · rintro ⟨s, rest, ⟨w, hw, rfl⟩, rfl⟩
    exact ⟨w, rest, rfl, hw, rfl, by simp⟩
  · rintro ⟨w, rest, rfl, hw, hstart, hstop⟩
    refine ⟨i.toStatement, rest, ⟨w, hw, rfl⟩, ?_⟩
    rw [List.length_append, Nat.add_sub_cancel, List.take_left, ← size_append, ← hstart, ← hstop]

/-- A match at the end of `x` is exactly a statement of the grammar at the front of what follows.
That statement is the only one there, the range of the match holds its bytes, the match has its
parts, and the entries of a braced list are the runs between separators. -/
theorem matchAt?_written (x t : Text) :
    ((matchAt? (x ++ t) (size x)).isSome = true ↔ ∃ s : Statement, ∃ w, w <+: t ∧ s.Written w) ∧
      (∀ (s s' : Statement) (w w' : Text), w <+: t → w' <+: t → s.Written w → s'.Written w' →
        w = w' ∧ s = s') ∧
      ∀ i, matchAt? (x ++ t) (size x) = some i → ∃ w, w <+: t ∧ i.toStatement.Written w ∧
        i.start = (bytes x).length ∧ i.stop = (bytes (x ++ w)).length ∧
        (bytes (x ++ t)).extract i.start i.stop = bytes w ∧
        (['{'] <+: i.binding.text ↔ ∃ inner, i.binding = .braces inner) ∧
        ∀ inner, i.binding = .braces inner → i.binding.text = ['{'] ++ inner ++ ['}'] ∧
          HasRuns Binding.separates inner (Binding.symbolsOf inner) := by
  refine ⟨?_, ?_, ?_⟩
  · rw [Option.isSome_iff_exists]
    constructor
    · rintro ⟨i, hi⟩
      obtain ⟨w, rest, rfl, hw, -, -⟩ := matchAt?_eq_some_iff.mp hi
      exact ⟨i.toStatement, w, List.prefix_append w rest, hw⟩
    · rintro ⟨s, w, ⟨rest, rfl⟩, hw⟩
      exact ⟨⟨s, size x, size (x ++ w)⟩, matchAt?_eq_some_iff.mpr ⟨w, rest, rfl, hw, rfl, rfl⟩⟩
  · rintro s s' w w' ⟨rest, hcut⟩ ⟨rest', hcut'⟩ hw hw'
    obtain rfl := hw.eq_of_append hw' (hcut.trans hcut'.symm)
    exact ⟨rfl, hw.unique hw'⟩
  · intro i hi
    obtain ⟨w, rest, rfl, hw, hstart, hstop⟩ := matchAt?_eq_some_iff.mp hi
    refine ⟨w, List.prefix_append w rest, hw, by rw [length_bytes, hstart],
      by rw [length_bytes, hstop], by rw [hstart, hstop, extract_bytes],
      Binding.prefix_text_iff hw.proper, fun inner hinner => ⟨?_, hasRuns_iff.mpr rfl⟩⟩
    rw [hinner]
    rfl

/-! The imports of a text. -/

theorem size_pos_of_ne_nil {t : Text} (h : t ≠ []) : 0 < size t := by
  cases t with
  | nil => contradiction
  | cons c t =>
    have hc := c.utf8Size_pos
    rw [size_cons]
    omega

/-- What the scan behind a text `x` says about the source `x ++ t`. -/
structure Covers (x t : Text) (imports : List Import) : Prop where
  disjoint : imports.Pairwise fun i j => i.stop ≤ j.start
  bounds : ∀ i ∈ imports, size x ≤ i.start ∧ i.start < i.stop
  isMatch : ∀ i ∈ imports, WordStart (x ++ t) i.start ∧ matchAt? (x ++ t) i.start = some i
  complete : ∀ y u i, t = y ++ u → at? (x ++ y).getLast? u ≠ none →
    matchAt? (x ++ t) (size (x ++ y)) = some i →
      i ∈ imports ∨ ∃ j ∈ imports, j.start < size (x ++ y) ∧ size (x ++ y) < j.stop

theorem wordStart_of_at? {x t : Text} (h : at? x.getLast? t ≠ none) :
    WordStart (x ++ t) (size x) := by
  cases t with
  | nil => exact absurd rfl h
  | cons c t =>
    refine wordStart_iff.mpr ⟨x, c, t, rfl, rfl, ?_⟩
    rw [at?] at h
    split at h
    · assumption
    · contradiction

theorem Covers.skip {x t : Text} {c : Char} {imports : List Import}
    (h : Covers (x ++ [c]) t imports) (hnone : at? x.getLast? (c :: t) = none) :
    Covers x (c :: t) imports := by
  have hcut : x ++ [c] ++ t = x ++ c :: t := by simp
  refine ⟨h.disjoint, fun i hi => ?_, fun i hi => hcut ▸ h.isMatch i hi, fun y u i hy hat hi => ?_⟩
  · obtain ⟨hlow, hstop⟩ := h.bounds i hi
    rw [size_append] at hlow
    exact ⟨by omega, hstop⟩
  · cases y with
    | nil =>
      rw [List.append_nil, ← List.nil_append u, ← hy, hnone] at hat
      contradiction
    | cons d y =>
      obtain ⟨rfl, rfl⟩ := List.cons.inj hy
      have hmove : x ++ c :: y = x ++ [c] ++ y := by simp
      rw [hmove, ← hcut] at hi
      rw [hmove] at hat ⊢
      exact h.complete y u i rfl hat hi

theorem Covers.found {x t w : Text} {s : Statement} {imports : List Import}
    (h : Covers (x ++ w) t imports) (hw : s.Written w)
    (hbefore : x.getLast?.any isNameChar = false) :
    Covers x (w ++ t) (⟨s, size x, size x + size w⟩ :: imports) := by
  have hcut : x ++ w ++ t = x ++ (w ++ t) := List.append_assoc x w t
  have hpos : 0 < size w := by
    obtain ⟨c, w', rfl, -⟩ := hw.exists_eq_cons
    exact size_pos_of_ne_nil (List.cons_ne_nil c w')
  have hat : at? x.getLast? (w ++ t) ≠ none := by
    rw [at?_eq_some_iff.mpr ⟨hbefore, w, hw, rfl⟩]
    exact Option.some_ne_none _
  have hown : matchAt? (x ++ (w ++ t)) (size x) = some ⟨s, size x, size x + size w⟩ :=
    matchAt?_eq_some_iff.mpr ⟨w, t, rfl, hw, rfl, (size_append x w).symm⟩
  refine ⟨List.pairwise_cons.mpr ⟨fun i hi => ?_, h.disjoint⟩, List.forall_mem_cons.mpr
    ⟨⟨Nat.le_refl _, Nat.lt_add_of_pos_right hpos⟩, fun i hi => ?_⟩, List.forall_mem_cons.mpr
      ⟨⟨wordStart_of_at? hat, hown⟩, fun i hi => hcut ▸ h.isMatch i hi⟩, fun y u i hy hat' hi => ?_⟩
  · have hlow := (h.bounds i hi).1
    rwa [size_append] at hlow
  · obtain ⟨hlow, hstop⟩ := h.bounds i hi
    rw [size_append] at hlow
    exact ⟨by omega, hstop⟩
  · -- a match begins behind the statement, with it, or inside of it
    have hbehind (z : Text) (hz : y = w ++ z) (hu : t = z ++ u) :
        i ∈ (⟨s, size x, size x + size w⟩ : Import) :: imports ∨
          ∃ j ∈ (⟨s, size x, size x + size w⟩ : Import) :: imports,
            j.start < size (x ++ y) ∧ size (x ++ y) < j.stop := by
      have hmove : x ++ y = x ++ w ++ z := by rw [hz, List.append_assoc]
      rw [hmove, ← hcut] at hi
      rw [hmove] at hat' ⊢
      rcases h.complete z u i hu hat' hi with hmem | ⟨j, hj, hin⟩
      · exact .inl (List.mem_cons_of_mem _ hmem)
      · exact .inr ⟨j, List.mem_cons_of_mem _ hj, hin⟩
    rcases List.append_eq_append_iff.mp hy with ⟨z, hz, hu⟩ | ⟨z, hz, hu⟩
    · exact hbehind z hz hu
    · by_cases hend : z = []
      · subst hend
        exact hbehind [] (by simpa using hz.symm) (by simpa using hu.symm)
      · by_cases hstart : y = []
        · subst hstart
          rw [List.append_nil, hown] at hi
          cases hi
          exact .inl List.mem_cons_self
        · have hypos := size_pos_of_ne_nil hstart
          have hzpos := size_pos_of_ne_nil hend
          refine .inr ⟨_, List.mem_cons_self, ?_⟩
          rw [hz]
          simp only [size_append]
          omega

theorem covers_scan {before : Option Char} {t : Text} {ws : List Text} (h : Scans before t ws)
    (x : Text) (hbefore : x.getLast? = before) : Covers x t (scan before (size x) 0 t) := by
  induction h generalizing x with
  | nil =>
    refine ⟨.nil, by simp [scan], by simp [scan], fun y u i hy hat hi => ?_⟩
    obtain ⟨rfl, rfl⟩ := List.append_eq_nil_iff.mp hy.symm
    exact absurd rfl hat
  | @skip before c t ws hnone _ ih =>
    have hnext := ih (x ++ [c]) (by simp)
    rw [size_append] at hnext
    rw [scan_of_at?_eq_none hnone]
    exact hnext.skip (hbefore ▸ hnone)
  | @found before s w t ws hw hfree _ ih =>
    obtain ⟨v, hv⟩ := hw.exists_eq_append
    have hnext := ih (x ++ w) (by simp [hv])
    rw [size_append] at hnext
    rw [scan_of_at?_eq_some (at?_eq_some_iff.mpr ⟨hfree, w, hw, rfl⟩) hw]
    exact hnext.found hw (hbefore ▸ hfree)

end Import

/-- The imports of a text stand one behind the other; each is the match at the start of a word, and
every match at the start of a word is an import or begins strictly inside one. -/
theorem importsOf_matches (source : Text) :
    ((importsOf source).Pairwise fun i j => i.start < j.start ∧ i.stop ≤ j.start) ∧
      (∀ i ∈ importsOf source, i.start < i.stop ∧ WordStart source i.start ∧
        Import.matchAt? source i.start = some i) ∧
      ∀ p i, WordStart source p → Import.matchAt? source p = some i →
        i ∈ importsOf source ∨ ∃ j ∈ importsOf source, j.start < p ∧ p < j.stop := by
  have h : Import.Covers [] source (importsOf source) :=
    Import.covers_scan (scans_importTexts source) [] rfl
  refine ⟨?_, fun i hi => ⟨(h.bounds i hi).2, h.isMatch i hi⟩, fun p i hp hi => ?_⟩
  · refine h.disjoint.imp_of_mem fun hi _ hle => ⟨?_, hle⟩
    exact Nat.lt_of_lt_of_le (h.bounds _ hi).2 hle
  · obtain ⟨x, c, t, rfl, rfl, hstart⟩ := wordStart_iff.mp hp
    refine h.complete x (c :: t) i rfl ?_ hi
    obtain ⟨w, rest, hcut, hw, -, -⟩ := Import.matchAt?_eq_some_iff.mp hi
    rw [Import.startsWord, Bool.and_eq_true, Bool.not_eq_true'] at hstart
    rw [List.nil_append, Import.at?_eq_some_iff.mpr ⟨hstart.2, w, hw, hcut⟩]
    exact Option.some_ne_none _

end Namespacer
