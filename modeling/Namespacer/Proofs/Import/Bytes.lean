import Namespacer.Proofs.Import.Grammar

/-! The UTF-8 bytes of a text. Where a byte is an ASCII one it is a character by itself, so the
beginning of a word shows in the bytes as it does in the characters. -/
namespace Namespacer.Text

def bytes (t : Text) : List UInt8 := t.flatMap String.utf8EncodeChar

@[simp] theorem bytes_append (s t : Text) : bytes (s ++ t) = bytes s ++ bytes t :=
  List.flatMap_append

theorem bytes_cons (c : Char) (t : Text) : bytes (c :: t) = String.utf8EncodeChar c ++ bytes t :=
  rfl

@[simp] theorem length_bytes (t : Text) : (bytes t).length = size t := by
  induction t with
  | nil => rfl
  | cons c t ih => rw [bytes_cons, List.length_append, String.length_utf8EncodeChar, ih, size_cons]

/-- The bytes from the size of `x` on are those of what follows. -/
theorem extract_bytes (x w rest : Text) :
    (bytes (x ++ (w ++ rest))).extract (size x) (size (x ++ w)) = bytes w := by
  rw [List.extract_eq_take_drop, size_append, Nat.add_sub_cancel_left, bytes_append,
    ← length_bytes x, List.drop_left, bytes_append, ← length_bytes w, List.take_left]

/-! Bytes of names. -/

def isLetterByte (b : UInt8) : Bool := 65 ≤ b && b ≤ 90 || 97 ≤ b && b ≤ 122

def isNameByte (b : UInt8) : Bool := isLetterByte b || 48 ≤ b && b ≤ 57 || b == 95 || b == 36

theorem isLetterByte_ofNat :
    ∀ n < 128, isLetterByte (UInt8.ofNat n) = (Char.ofNat n).isAlpha := by decide

theorem isNameByte_ofNat :
    ∀ n < 128, isNameByte (UInt8.ofNat n) = isNameChar (Char.ofNat n) := by decide

theorem toNat_of_isNameByte {b : UInt8} (h : isNameByte b = true) : b.toNat < 128 := by
  simp only [isNameByte, isLetterByte, Bool.or_eq_true, Bool.and_eq_true, decide_eq_true_eq,
    beq_iff_eq, UInt8.le_iff_toNat_le, ← UInt8.toNat_inj] at h
  simp only [UInt8.toNat_ofNat] at h
  omega

/-- A character is one ASCII byte, or none of its bytes is one. -/
theorem utf8EncodeChar_cases (c : Char) :
    (c.toNat < 128 ∧ String.utf8EncodeChar c = [UInt8.ofNat c.toNat]) ∨
      128 ≤ c.toNat ∧ ∀ b ∈ String.utf8EncodeChar c, 128 ≤ b.toNat := by
  unfold String.utf8EncodeChar
  dsimp only
  split
  · next h =>
    change c.toNat ≤ 127 at h
    exact .inl ⟨by omega, rfl⟩
  · next h =>
    change ¬ c.toNat ≤ 127 at h
    refine .inr ⟨by omega, ?_⟩
    split
    · simp only [List.mem_cons, List.not_mem_nil, or_false, forall_eq_or_imp, forall_eq,
        UInt8.toNat_ofNat']
      omega
    · split <;>
      · simp only [List.mem_cons, List.not_mem_nil, or_false, forall_eq_or_imp, forall_eq,
          UInt8.toNat_ofNat']
        omega

theorem any_getLast?_utf8EncodeChar (c : Char) :
    (String.utf8EncodeChar c).getLast?.any isNameByte = isNameChar c := by
  rcases utf8EncodeChar_cases c with ⟨hlow, hone⟩ | ⟨hhigh, hbytes⟩
  · rw [hone]
    simp [isNameByte_ofNat c.toNat hlow]
  · have hchar : isNameChar c = false := by
      rw [← Bool.not_eq_true]
      intro h
      have hrange := toNat_of_isNameChar h
      omega
    rw [hchar, Option.any_eq_false]
    intro b hb
    rw [← Bool.not_eq_true]
    intro h
    have hlow := toNat_of_isNameByte h
    have hhigh := hbytes b (List.mem_of_getLast? hb)
    omega

/-- The last byte of a text tells whether it ends in a character of a name. -/
theorem any_getLast?_bytes (t : Text) :
    (bytes t).getLast?.any isNameByte = t.getLast?.any isNameChar := by
  cases hlast : t.getLast? with
  | none =>
    rw [List.getLast?_eq_none_iff.mp hlast]
    rfl
  | some c =>
    obtain ⟨s, rfl⟩ := List.getLast?_eq_some_iff.mp hlast
    have hbytes : bytes (s ++ [c]) = bytes s ++ String.utf8EncodeChar c := by simp [bytes]
    have hsome : (String.utf8EncodeChar c).getLast?.isSome = true := by
      rw [List.getLast?_isSome, ← List.length_pos_iff, String.length_utf8EncodeChar]
      exact c.utf8Size_pos
    rw [hbytes, List.getLast?_append, Option.or_of_isSome hsome, any_getLast?_utf8EncodeChar]
    rfl

/-! Words. -/

/-- A word starts at a byte that is an ASCII letter and has no byte of a name before it. -/
def WordStart (source : Text) (p : Nat) : Prop :=
  (bytes source)[p]?.any isLetterByte = true ∧
    (p = 0 ∨ (bytes source)[p - 1]?.any isNameByte = false)

theorem exists_of_letter {source : Text} {p : Nat}
    (h : (bytes source)[p]?.any isLetterByte = true) :
    ∃ x c t, source = x ++ c :: t ∧ p = size x ∧ c.isAlpha = true := by
  induction source generalizing p with
  | nil => simp [bytes] at h
  | cons c t ih =>
    rw [bytes_cons, List.getElem?_append, String.length_utf8EncodeChar] at h
    split at h
    · next hin =>
      obtain ⟨b, hb, hletter⟩ := (Option.any_eq_true _ _).mp h
      have hlow : b.toNat < 128 := toNat_of_isNameByte (by simp [isNameByte, hletter])
      rcases utf8EncodeChar_cases c with ⟨hc, hone⟩ | ⟨-, hbytes⟩
      · rw [hone] at hb
        obtain ⟨hp, hb⟩ : p = 0 ∧ UInt8.ofNat c.toNat = b := by
          rw [List.getElem?_singleton] at hb
          split at hb
          · next hzero => exact ⟨hzero, Option.some.inj hb⟩
          · contradiction
        rw [← hb, isLetterByte_ofNat c.toNat hc, Char.ofNat_toNat] at hletter
        exact ⟨[], c, t, rfl, hp, hletter⟩
      · have hhigh := hbytes b (List.mem_of_getElem? hb)
        omega
    · next hout =>
      obtain ⟨x, d, u, rfl, hp, hd⟩ := ih h
      exact ⟨c :: x, d, u, rfl, by rw [size_cons]; omega, hd⟩

theorem wordStart_iff {source : Text} {p : Nat} :
    WordStart source p ↔
      ∃ x c t, source = x ++ c :: t ∧ p = size x ∧ Import.startsWord x.getLast? c = true := by
  -- the byte before `c` is the last one of `x`
  have hbefore (x : Text) (c : Char) (t : Text) :
      (size x = 0 ∨ (bytes (x ++ c :: t))[size x - 1]?.any isNameByte = false) ↔
        x.getLast?.any isNameChar = false := by
    rw [← any_getLast?_bytes, bytes_append]
    by_cases hx : size x = 0
    · have hnil : bytes x = [] := by rw [← List.length_eq_zero_iff, length_bytes, hx]
      simp [hx, hnil]
    · rw [List.getElem?_append_left (by rw [length_bytes]; omega), List.getLast?_eq_getElem?,
        length_bytes]
      simp [hx]
  constructor
  · rintro ⟨hletter, hword⟩
    obtain ⟨x, c, t, rfl, rfl, hc⟩ := exists_of_letter hletter
    refine ⟨x, c, t, rfl, rfl, ?_⟩
    rw [Import.startsWord, hc, (hbefore x c t).mp hword]
    rfl
  · rintro ⟨x, c, t, rfl, rfl, hstart⟩
    rw [Import.startsWord, Bool.and_eq_true, Bool.not_eq_true'] at hstart
    refine ⟨?_, (hbefore x c t).mpr hstart.2⟩
    have hname : isNameChar c = true := by simp [isNameChar, Char.isAlphanum, hstart.1]
    rcases utf8EncodeChar_cases c with ⟨hc, hone⟩ | ⟨hhigh, -⟩
    · rw [bytes_append, List.getElem?_append_right (Nat.le_of_eq (length_bytes x)), length_bytes,
        Nat.sub_self, bytes_cons, hone]
      simp [isLetterByte_ofNat c.toNat hc, hstart.1]
    · have hrange := toNat_of_isNameChar hname
      omega

end Namespacer.Text
