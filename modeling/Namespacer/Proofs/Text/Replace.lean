import Namespacer.Text.Basic

/-! Replacing a pattern in a text. A text is either empty, or it begins with the pattern, or its
first character is kept; replacing follows that division. -/
namespace Namespacer.Text

theorem startsWith_iff {t start : Text} : startsWith t start = true ↔ start <+: t := by
  rw [startsWith, Option.isSome_iff_exists]
  constructor
  · rintro ⟨rest, h⟩
    exact ⟨rest, (after?_eq_some_iff.mp h).symm⟩
  · rintro ⟨rest, h⟩
    exact ⟨rest, after?_eq_some_iff.mpr h.symm⟩

theorem endsWith_iff {t ending : Text} : endsWith t ending = true ↔ ending <:+ t := by
  rw [endsWith, Option.isSome_iff_exists]
  constructor
  · rintro ⟨rest, h⟩
    exact ⟨rest, (before?_eq_some_iff.mp h).symm⟩
  · rintro ⟨rest, h⟩
    exact ⟨rest, before?_eq_some_iff.mpr h.symm⟩

theorem prefix_of_prefix_append_cons {p x y : Text} {c : Char} (hc : c ∉ p)
    (h : p <+: x ++ c :: y) : p <+: x := by
  induction p generalizing x with
  | nil => exact List.nil_prefix
  | cons a p ih =>
    obtain ⟨hac, hp⟩ := List.ne_and_not_mem_of_not_mem_cons hc
    cases x with
    | nil => exact absurd (List.cons_prefix_cons.mp h).1.symm hac
    | cons d x =>
      obtain ⟨had, hrest⟩ := List.cons_prefix_cons.mp h
      exact List.cons_prefix_cons.mpr ⟨had, ih hp hrest⟩

/-- A character that a pattern lacks lies between its occurrences. -/
theorem infix_or_infix_of_not_mem {p x y : Text} {c : Char} (hc : c ∉ p)
    (h : p <:+: x ++ c :: y) : p <:+: x ∨ p <:+: y := by
  induction x with
  | nil =>
    rcases List.infix_cons_iff.mp h with h | h
    · exact .inl (prefix_of_prefix_append_cons (x := []) hc h).isInfix
    · exact .inr h
  | cons a x ih =>
    rcases List.infix_cons_iff.mp h with h | h
    · exact .inl (prefix_of_prefix_append_cons (x := a :: x) hc h).isInfix
    · exact (ih h).imp_left fun hx => hx.trans (List.suffix_cons a x).isInfix

theorem occurrence_induction {p : Text} (hp : p ≠ []) {motive : Text → Prop}
    (nil : motive []) (found : ∀ t, motive t → motive (p ++ t))
    (kept : ∀ c t, ¬ p <+: c :: t → motive t → motive (c :: t)) (t : Text) : motive t := by
  induction hn : t.length using Nat.strongRecOn generalizing t with
  | _ n ih =>
    have hpos : 0 < p.length := List.length_pos_iff.mpr hp
    cases t with
    | nil => exact nil
    | cons c t =>
      by_cases hstart : p <+: c :: t
      · obtain ⟨rest, hrest⟩ := hstart
        have hlen := congrArg List.length hrest
        rw [List.length_append] at hlen
        rw [← hrest]
        exact found rest (ih rest.length (by omega) rest rfl)
      · exact kept c t hstart (ih t.length (by simp [← hn]) t rfl)

section Pattern

variable {p : Text} (r : Text)

theorem replaceFrom_drop (k : Nat) (t : Text) :
    replaceFrom p r k t = replaceFrom p r 0 (t.drop k) := by
  induction t generalizing k with
  | nil => cases k <;> rfl
  | cons c t ih =>
    cases k with
    | zero => rfl
    | succ k => rw [replaceFrom, ih, List.drop_succ_cons]

theorem replaceAll_eq (hp : p ≠ []) (t : Text) : replaceAll p r t = replaceFrom p r 0 t := by
  rw [replaceAll, if_neg (by simpa using hp)]

@[simp] theorem replaceAll_nil (hp : p ≠ []) : replaceAll p r [] = [] := by
  rw [replaceAll_eq r hp, replaceFrom]

theorem replaceAll_append (hp : p ≠ []) (t : Text) :
    replaceAll p r (p ++ t) = r ++ replaceAll p r t := by
  rw [replaceAll_eq r hp, replaceAll_eq r hp]
  cases p with
  | nil => contradiction
  | cons a p =>
    have hstart : startsWith (a :: (p ++ t)) (a :: p) = true :=
      startsWith_iff.mpr (List.prefix_append (a :: p) t)
    rw [List.cons_append, replaceFrom, if_pos hstart, replaceFrom_drop]
    simp

theorem replaceAll_cons (hp : p ≠ []) {c : Char} {t : Text} (h : ¬ p <+: c :: t) :
    replaceAll p r (c :: t) = c :: replaceAll p r t := by
  rw [replaceAll_eq r hp, replaceAll_eq r hp, replaceFrom, if_neg]
  rwa [startsWith_iff]

/-- A character that the pattern lacks cuts the work in two. -/
theorem replaceAll_append_cons (hp : p ≠ []) {c : Char} (hc : c ∉ p) (x y : Text) :
    replaceAll p r (x ++ c :: y) = replaceAll p r x ++ c :: replaceAll p r y := by
  induction x using occurrence_induction hp with
  | nil =>
    have hstart : ¬ p <+: c :: y := by
      intro h
      have hnil := prefix_of_prefix_append_cons (x := []) hc h
      exact hp (List.prefix_nil.mp hnil)
    rw [List.nil_append, replaceAll_cons r hp hstart, replaceAll_nil r hp, List.nil_append]
  | found x ih =>
    rw [List.append_assoc, replaceAll_append r hp, ih, replaceAll_append r hp, List.append_assoc]
  | kept a x ha ih =>
    have hstart : ¬ p <+: a :: (x ++ c :: y) := fun h => ha (prefix_of_prefix_append_cons hc h)
    rw [List.cons_append, replaceAll_cons r hp hstart, ih, replaceAll_cons r hp ha,
      List.cons_append]

theorem replaceAll_append_of_not_mem {a : Char} {x : Text} (hx : a ∉ x) (t : Text) :
    replaceAll (a :: p) r (x ++ t) = x ++ replaceAll (a :: p) r t := by
  induction x with
  | nil => rfl
  | cons c x ih =>
    obtain ⟨hac, hx⟩ := List.ne_and_not_mem_of_not_mem_cons hx
    have hstart : ¬ a :: p <+: c :: (x ++ t) := fun h => hac (List.cons_prefix_cons.mp h).1
    rw [List.cons_append, replaceAll_cons r (List.cons_ne_nil a p) hstart, ih hx, List.cons_append]

theorem replaceAll_of_not_infix (hp : p ≠ []) {t : Text} (h : ¬ p <:+: t) :
    replaceAll p r t = t := by
  induction t using occurrence_induction hp with
  | nil => exact replaceAll_nil r hp
  | found t ih => exact absurd (List.prefix_append p t).isInfix h
  | kept c t hc ih =>
    rw [replaceAll_cons r hp hc, ih fun ht => h (ht.trans (List.suffix_cons c t).isInfix)]

/-! How often a character occurs. -/

variable {r} {a : Char}

theorem count_replaceAll_le (hp : p ≠ []) (h : r.count a ≤ p.count a) (t : Text) :
    (replaceAll p r t).count a ≤ t.count a := by
  induction t using occurrence_induction hp with
  | nil => simp [hp]
  | found t ih =>
    rw [replaceAll_append r hp, List.count_append, List.count_append]
    omega
  | kept c t hc ih =>
    rw [replaceAll_cons r hp hc, List.count_cons, List.count_cons]
    omega

theorem count_replaceAll_eq (hp : p ≠ []) (h : r.count a = p.count a) (t : Text) :
    (replaceAll p r t).count a = t.count a := by
  induction t using occurrence_induction hp with
  | nil => simp [hp]
  | found t ih => rw [replaceAll_append r hp, List.count_append, List.count_append, ih, h]
  | kept c t hc ih => rw [replaceAll_cons r hp hc, List.count_cons, List.count_cons, ih]

theorem count_replaceAll_lt (hp : p ≠ []) (h : r.count a < p.count a) {t : Text}
    (ht : p <:+: t) : (replaceAll p r t).count a < t.count a := by
  induction t using occurrence_induction hp with
  | nil => exact absurd (List.infix_nil.mp ht) hp
  | found t ih =>
    have hle := count_replaceAll_le hp (Nat.le_of_lt h) t
    rw [replaceAll_append r hp, List.count_append, List.count_append]
    omega
  | kept c t hc ih =>
    rcases List.infix_cons_iff.mp ht with hstart | hinside
    · exact absurd hstart hc
    · have hlt := ih hinside
      rw [replaceAll_cons r hp hc, List.count_cons, List.count_cons]
      omega

/-! How long a text becomes. -/

theorem length_le_replaceAll (hp : p ≠ []) (h : p.length ≤ r.length) (t : Text) :
    t.length ≤ (replaceAll p r t).length := by
  induction t using occurrence_induction hp with
  | nil => simp
  | found t ih =>
    rw [replaceAll_append r hp, List.length_append, List.length_append]
    omega
  | kept c t hc ih =>
    rw [replaceAll_cons r hp hc, List.length_cons, List.length_cons]
    omega

theorem length_lt_replaceAll (hp : p ≠ []) (h : p.length < r.length) {t : Text}
    (ht : p <:+: t) : t.length < (replaceAll p r t).length := by
  induction t using occurrence_induction hp with
  | nil => exact absurd (List.infix_nil.mp ht) hp
  | found t ih =>
    have hle := length_le_replaceAll hp (Nat.le_of_lt h) t
    rw [replaceAll_append r hp, List.length_append, List.length_append]
    omega
  | kept c t hc ih =>
    rcases List.infix_cons_iff.mp ht with hstart | hinside
    · exact absurd hstart hc
    · have hlt := ih hinside
      rw [replaceAll_cons r hp hc, List.length_cons, List.length_cons]
      omega

end Pattern
end Namespacer.Text
