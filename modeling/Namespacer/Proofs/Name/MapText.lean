import Namespacer.Name.MapText

/-! A table of texts is read back as it was written, whatever characters its keys and values are
made of. Reading is followed piece by piece: each piece that is written takes the reader from one
state to the next. -/
namespace Namespacer

open Text

namespace Table

variable {α : Type}

/-- An entry whose key comes after all others goes to the end. -/
theorem insertIn_of_forall_lt {key : Text} (value : α) {entries : List (Text × α)}
    (h : ∀ e ∈ entries, e.1 < key) : insertIn key value entries = entries ++ [(key, value)] := by
  induction entries with
  | nil => rfl
  | cons head rest ih =>
    obtain ⟨k, a⟩ := head
    obtain ⟨hk, hrest⟩ := List.forall_mem_cons.mp h
    have hne : key ≠ k := by
      rintro rfl
      exact List.lt_irrefl key hk
    rw [insertIn, if_neg (List.lt_asymm hk), if_neg hne, ih hrest, List.cons_append]

end Table

namespace MapText

/-- The text takes the reader from one state to another. -/
def Reads (s : State) (t : Text) (s' : State) : Prop := t.foldlM step s = some s'

namespace Reads

variable {s s' s'' : State}

theorem nil (s : State) : Reads s [] s := rfl

theorem append {t t' : Text} (h : Reads s t s') (h' : Reads s' t' s'') :
    Reads s (t ++ t') s'' := by
  unfold Reads at h
  rw [Reads, List.foldlM_append, h]
  exact h'

theorem cons {c : Char} {t : Text} (h : step s c = some s') (h' : Reads s' t s'') :
    Reads s (c :: t) s'' := by
  rw [Reads, List.foldlM_cons, h]
  exact h'

end Reads

/-! Strings. -/

theorem hexValue?_hexDigit {n : Nat} (h : n < 16) : hexValue? (hexDigit n) = some n := by
  have hall : ∀ n < 16, hexValue? (hexDigit n) = some n := by decide
  exact hall n h

/-- A character is written as a short escape, as a code, or as itself. -/
theorem stringChar_cases (c : Char) :
    (∃ d, stringChar c = ['\\', d] ∧ shortEscape? d = some c ∧ d ≠ 'u') ∨
    (stringChar c =
        ['\\', 'u', '0', '0', hexDigit (c.toNat / 16), hexDigit (c.toNat % 16)] ∧
      c.toNat < 32) ∨
    (stringChar c = [c] ∧ c ≠ '"' ∧ c ≠ '\\' ∧ ¬ c.toNat < 32) := by
  by_cases hshort : c ∈ ['"', '\\', '\n', '\r', '\t', '\x08', '\x0c']
  · left
    simp only [List.mem_cons, List.not_mem_nil, or_false] at hshort
    rcases hshort with rfl | rfl | rfl | rfl | rfl | rfl | rfl <;> exact ⟨_, rfl, rfl, by decide⟩
  · right
    simp only [List.mem_cons, List.not_mem_nil, or_false, not_or] at hshort
    obtain ⟨hquote, hbackslash, hn, hr, ht, hb, hf⟩ := hshort
    rw [stringChar, if_neg hquote, if_neg hbackslash, if_neg hn, if_neg hr, if_neg ht, if_neg hb,
      if_neg hf]
    by_cases hcontrol : c.toNat < 32
    · rw [if_pos hcontrol]
      exact .inl ⟨rfl, hcontrol⟩
    · rw [if_neg hcontrol]
      exact .inr ⟨rfl, hquote, hbackslash, hcontrol⟩

/-- What is read inside a string, for a string in any place. -/
structure StringPlace (within : Text → Escape → Place) : Prop where
  step : ∀ {entries : Table Text} {read read' : Text} {escape escape' : Escape} {c : Char},
    stringStep read c escape = some (.more read' escape') →
      MapText.step ⟨entries, within read escape⟩ c = some ⟨entries, within read' escape'⟩

theorem stringPlace_inKey : StringPlace .inKey where
  step h := by simp [MapText.step, h]

theorem stringPlace_inValue (key : Text) : StringPlace (.inValue key) where
  step h := by simp [MapText.step, h]

namespace StringPlace

variable {within : Text → Escape → Place} (hplace : StringPlace within) (entries : Table Text)
  (read : Text)

include hplace

theorem reads_short {c d : Char} (hd : d ≠ 'u') (h : shortEscape? d = some c) :
    Reads ⟨entries, within read .plain⟩ ['\\', d] ⟨entries, within (c :: read) .plain⟩ := by
  have hshort : stringStep read d .backslash = some (.more (c :: read) .plain) := by
    rw [stringStep, if_neg hd, h, Option.map_some]
  exact .cons (hplace.step rfl) (.cons (hplace.step hshort) (.nil _))

/-- A control character is written as a code of four digits. -/
theorem reads_code {c : Char} (h : c.toNat < 32) :
    Reads ⟨entries, within read .plain⟩
      ['\\', 'u', '0', '0', hexDigit (c.toNat / 16), hexDigit (c.toNat % 16)]
      ⟨entries, within (c :: read) .plain⟩ := by
  have hhigh : hexValue? (hexDigit (c.toNat / 16)) = some (c.toNat / 16) :=
    hexValue?_hexDigit (by omega)
  have hlow : hexValue? (hexDigit (c.toNat % 16)) = some (c.toNat % 16) :=
    hexValue?_hexDigit (by omega)
  have hdigit : stringStep read (hexDigit (c.toNat / 16)) (.code 2 0 none) =
      some (.more read (.code 1 (c.toNat / 16) none)) := by
    simp [stringStep, hhigh]
  have hchar : stringStep read (hexDigit (c.toNat % 16)) (.code 1 (c.toNat / 16) none) =
      some (.more (c :: read) .plain) := by
    have hvalue : c.toNat / 16 * 16 + c.toNat % 16 = c.toNat := by omega
    have hnotHigh : isHighHalf c.toNat = false := by
      rw [isHighHalf, Bool.and_eq_false_iff]
      exact .inl (by simpa using by omega)
    have hnotLow : isLowHalf c.toNat = false := by
      rw [isLowHalf, Bool.and_eq_false_iff]
      exact .inl (by simpa using by omega)
    simp [stringStep, hlow, hvalue, codeStep, hnotHigh, hnotLow]
  exact .cons (hplace.step rfl) (.cons (hplace.step rfl) (.cons (hplace.step rfl)
    (.cons (hplace.step rfl) (.cons (hplace.step hdigit) (.cons (hplace.step hchar) (.nil _))))))

theorem reads_stringChar (c : Char) :
    Reads ⟨entries, within read .plain⟩ (stringChar c) ⟨entries, within (c :: read) .plain⟩ := by
  obtain ⟨d, ht, hshort, hd⟩ | ⟨ht, hcontrol⟩ | ⟨ht, hquote, hbackslash, hcontrol⟩ :=
    stringChar_cases c
  · rw [ht]
    exact hplace.reads_short entries read hd hshort
  · rw [ht]
    exact hplace.reads_code entries read hcontrol
  · rw [ht]
    have hchar : stringStep read c .plain = some (.more (c :: read) .plain) := by
      rw [stringStep, if_neg hquote, if_neg hbackslash, if_neg hcontrol]
    exact .cons (hplace.step hchar) (.nil _)

theorem reads_chars (t : Text) :
    Reads ⟨entries, within read .plain⟩ (t.flatMap stringChar)
      ⟨entries, within (t.reverse ++ read) .plain⟩ := by
  induction t generalizing read with
  | nil => exact .nil _
  | cons c t ih =>
    rw [List.flatMap_cons, List.reverse_cons, List.append_assoc]
    exact (hplace.reads_stringChar entries read c).append (ih (c :: read))

end StringPlace

/-! Lines. -/

theorem reads_key (entries : Table Text) (first : Bool) (key : Text) :
    Reads ⟨entries, .beforeKey first⟩ (string key) ⟨entries, .afterKey key⟩ := by
  have hopened : step ⟨entries, .beforeKey first⟩ '"' = some ⟨entries, .inKey [] .plain⟩ := by
    cases first <;> rfl
  have hclosed : step ⟨entries, .inKey (key.reverse ++ []) .plain⟩ '"' =
      some ⟨entries, .afterKey key⟩ := by
    simp [step, stringStep]
  exact .cons hopened
    ((stringPlace_inKey.reads_chars entries [] key).append (.cons hclosed (.nil _)))

theorem reads_value (entries : Table Text) (key value : Text) :
    Reads ⟨entries, .beforeValue key⟩ (string value)
      ⟨entries.insert key value, .afterValue⟩ := by
  have hopened : step ⟨entries, .beforeValue key⟩ '"' =
      some ⟨entries, .inValue key [] .plain⟩ := rfl
  have hclosed : step ⟨entries, .inValue key (value.reverse ++ []) .plain⟩ '"' =
      some ⟨entries.insert key value, .afterValue⟩ := by
    simp [step, stringStep]
  exact .cons hopened
    (((stringPlace_inValue key).reads_chars entries [] value).append (.cons hclosed (.nil _)))

theorem reads_line (entries : Table Text) (first : Bool) (e : Text × Text) :
    Reads ⟨entries, .beforeKey first⟩ (line e) ⟨entries.insert e.1 e.2, .afterValue⟩ := by
  have hindent : Reads ⟨entries, .beforeKey first⟩ [' ', ' '] ⟨entries, .beforeKey first⟩ :=
    .cons rfl (.cons rfl (.nil _))
  have hcolon : Reads ⟨entries, .afterKey e.1⟩ [':', ' '] ⟨entries, .beforeValue e.1⟩ :=
    .cons rfl (.cons rfl (.nil _))
  exact ((hindent.append (reads_key entries first e.1)).append hcolon).append
    (reads_value entries e.1 e.2)

/-- Lines in the order of their keys add their entries at the end. -/
theorem reads_lines {t t' : Table Text} {rest : List (Text × Text)}
    (h : t'.entries = t.entries ++ rest) :
    Reads ⟨t, .afterValue⟩ (rest.flatMap fun e => [',', '\n'] ++ line e) ⟨t', .afterValue⟩ := by
  induction rest generalizing t with
  | nil =>
    have heq : t' = t := Table.ext (h.trans (List.append_nil _))
    rw [heq]
    exact .nil _
  | cons e rest ih =>
    have hseparator : Reads ⟨t, .afterValue⟩ [',', '\n'] ⟨t, .beforeKey false⟩ :=
      .cons rfl (.cons rfl (.nil _))
    have hlast : ∀ e' ∈ t.entries, e'.1 < e.1 := by
      have hsorted := t'.sorted
      rw [h, List.pairwise_append] at hsorted
      exact fun e' he' => hsorted.2.2 e' he' e List.mem_cons_self
    have hinsert : (t.insert e.1 e.2).entries = t.entries ++ [e] :=
      Table.insertIn_of_forall_lt e.2 hlast
    have hentries : t'.entries = (t.insert e.1 e.2).entries ++ rest := by
      rw [h, hinsert, List.append_assoc, List.singleton_append]
    rw [List.flatMap_cons]
    exact (hseparator.append (reads_line t false e)).append (ih hentries)

theorem intercalate_lines (e : Text × Text) (rest : List (Text × Text)) :
    List.intercalate [',', '\n'] ((e :: rest).map line) =
      line e ++ rest.flatMap fun e => [',', '\n'] ++ line e := by
  induction rest generalizing e with
  | nil => simp
  | cons e' rest ih =>
    rw [List.map_cons, List.map_cons, List.intercalate_cons_cons, ← List.map_cons, ih]
    simp

theorem reads_render (t : Table Text) : Reads {} (render t) ⟨t, .finished⟩ := by
  unfold render Table.isEmpty
  cases hentries : t.entries with
  | nil =>
    have hempty : t = .empty := Table.ext hentries
    rw [hempty]
    exact .cons rfl (.cons rfl (.nil _))
  | cons e rest =>
    have hopen : Reads {} ['{', '\n'] ⟨.empty, .beforeKey true⟩ := .cons rfl (.cons rfl (.nil _))
    have hclose : Reads ⟨t, .afterValue⟩ ['\n', '}'] ⟨t, .finished⟩ :=
      .cons rfl (.cons rfl (.nil _))
    rw [if_neg (by simp), intercalate_lines]
    exact (hopen.append ((reads_line .empty true e).append (reads_lines hentries))).append hclose

/-- What was written is read back as the same table, with an end of line after it. -/
theorem parse?_render (t : Table Text) : parse? (render t ++ ['\n']) = some t := by
  have hreads : Reads {} (render t ++ ['\n']) ⟨t, .finished⟩ :=
    (reads_render t).append (.cons rfl (.nil _))
  rw [parse?, hreads]

end MapText
end Namespacer
