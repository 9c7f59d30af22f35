import Mathlib.Tactic.SplitIfs
import Namespacer.Proofs.Import.Bytes

/-! The order of texts. Comparing characters and comparing UTF-8 bytes come to the same, since the
bytes of a smaller character come first and are no beginning of those of a greater one. -/
namespace Namespacer.Text

/-- Comparing lists by a first byte that is given by a number. -/
theorem ofNat_cons_lt_iff {a b : Nat} (ha : a < 256) (hb : b < 256) {s t : List UInt8} :
    UInt8.ofNat a :: s < UInt8.ofNat b :: t ↔ a < b ∨ a = b ∧ s < t := by
  rw [List.cons_lt_cons_iff, UInt8.lt_iff_toNat_lt, ← UInt8.toNat_inj, UInt8.toNat_ofNat',
    UInt8.toNat_ofNat', Nat.mod_eq_of_lt ha, Nat.mod_eq_of_lt hb]

/-- A smaller character decides the order of bytes, whatever follows. -/
theorem utf8EncodeChar_append_lt {c d : Char} (h : c < d) (s t : List UInt8) :
    String.utf8EncodeChar c ++ s < String.utf8EncodeChar d ++ t := by
  have hlt : c.val.toNat < d.val.toNat := h
  have hbound : d.val.toNat < 1114112 := by
    rcases d.valid with hd | hd <;> omega
  unfold String.utf8EncodeChar
  dsimp only
  generalize c.val.toNat = m at hlt
  generalize d.val.toNat = n at hlt hbound
  have hdigits (k : Nat) : k / 64 / 64 = k / 4096 ∧ k / 4096 / 64 = k / 262144 :=
    ⟨Nat.div_div_eq_div_mul k 64 64, Nat.div_div_eq_div_mul k 4096 64⟩
  obtain ⟨hm, hm'⟩ := hdigits m
  obtain ⟨hn, hn'⟩ := hdigits n
  have hm8 : m / 262144 % 8 = m / 262144 := Nat.mod_eq_of_lt (by omega)
  have hn8 : n / 262144 % 8 = n / 262144 := Nat.mod_eq_of_lt (by omega)
  -- each pair of lengths, of which those with fewer bytes on the right do not occur
  split_ifs <;>
    simp (disch := omega) only [List.cons_append, List.nil_append, ofNat_cons_lt_iff, hm8, hn8] <;>
    omega

theorem bytes_lt_bytes {s t : Text} (h : s < t) : bytes s < bytes t := by
  induction h with
  | @nil d t =>
    have hsome : bytes (d :: t) ≠ [] := by
      have hpos := d.utf8Size_pos
      rw [← List.length_pos_iff, length_bytes, size_cons]
      omega
    obtain ⟨b, rest, hbytes⟩ := List.exists_cons_of_ne_nil hsome
    rw [hbytes]
    exact List.nil_lt_cons b rest
  | rel h => exact utf8EncodeChar_append_lt h _ _
  | cons _ ih => exact List.append_left_lt ih

theorem bytes_inj {s t : Text} : bytes s = bytes t ↔ s = t := by
  have hnot {s t : Text} (h : bytes s = bytes t) : ¬ s < t := by
    intro hlt
    have hbytes := bytes_lt_bytes hlt
    rw [h] at hbytes
    exact List.lt_irrefl _ hbytes
  refine ⟨fun h => ?_, congrArg bytes⟩
  exact List.le_antisymm (List.not_lt.mp (hnot h.symm)) (List.not_lt.mp (hnot h))

end Namespacer.Text
