import Namespacer.Import.Basic

/-! The grammar of import statements. A statement is written as its keyword, its binding, an equals
sign, the word `require` and the quoted specifier in parentheses, with white space in between. The
reader takes off the front of a text exactly what the grammar allows. -/
namespace Namespacer

open Text

/-! Classes of characters. -/

theorem toNat_of_isNameChar {c : Char} (h : isNameChar c = true) :
    36 ≤ c.toNat ∧ c.toNat ≤ 122 := by
  simp only [isNameChar, Bool.or_eq_true, beq_iff_eq] at h
  rcases h with (h | rfl) | rfl
  · change (decide (c.val ≥ 65 ∧ c.val ≤ 90) || (c.val ≥ 97 && c.val ≤ 122) ||
      (c.val ≥ 48 && c.val ≤ 57)) = true at h
    simp only [Bool.or_eq_true, Bool.and_eq_true, decide_eq_true_eq, ge_iff_le,
      UInt32.le_iff_toNat_le] at h
    change (((65 ≤ c.toNat ∧ c.toNat ≤ 90) ∨ 97 ≤ c.toNat ∧ c.toNat ≤ 122) ∨
      48 ≤ c.toNat ∧ c.toNat ≤ 57) at h
    omega
  · decide
  · decide

theorem toNat_of_isBlank {c : Char} (h : isBlank c = true) : c.toNat ≤ 32 ∨ 133 ≤ c.toNat := by
  simp only [isBlank, inRanges, blankRanges, List.any_cons, List.any_nil, Bool.or_eq_true,
    Bool.and_eq_true, decide_eq_true_eq, Bool.false_eq_true, or_false] at h
  omega

theorem isNameChar_eq_false_of_isBlank {c : Char} (h : isBlank c = true) :
    isNameChar c = false := by
  rw [← Bool.not_eq_true]
  intro hname
  have hlow := toNat_of_isNameChar hname
  have hhigh := toNat_of_isBlank h
  omega

theorem isBlank_eq_false_of_isNameChar {c : Char} (h : isNameChar c = true) :
    isBlank c = false := by
  rw [← Bool.not_eq_true]
  intro hblank
  rw [isNameChar_eq_false_of_isBlank hblank] at h
  contradiction

def Blank (t : Text) : Prop := ∀ c ∈ t, isBlank c = true

/-- A text is cut after its longest start of one class of characters. -/
theorem takeWhile_dropWhile_iff {p : Char → Bool} {t run rest : Text} :
    t.takeWhile p = run ∧ t.dropWhile p = rest ↔
      t = run ++ rest ∧ (∀ c ∈ run, p c = true) ∧ ∀ c ∈ rest.head?, p c = false := by
  constructor
  · rintro ⟨rfl, rfl⟩
    refine ⟨List.takeWhile_append_dropWhile.symm, fun c hc => ?_, fun c hc => ?_⟩
    · exact List.all_eq_true.mp List.all_takeWhile c hc
    · have hhead := List.head?_dropWhile_not p t
      rw [Option.mem_def.mp hc] at hhead
      simpa using hhead
  · rintro ⟨rfl, hrun, hrest⟩
    rw [List.takeWhile_append_of_pos hrun, List.dropWhile_append_of_pos hrun]
    cases rest with
    | nil => simp
    | cons c rest =>
      have hc : p c = false := hrest c (by simp)
      simp [hc]

/-! The parts of a statement. -/

theorem Keyword.read?_eq_some_iff {t rest : Text} {k : Keyword} :
    Keyword.read? t = some (k, rest) ↔ t = k.text ++ rest := by
  constructor
  · intro h
    obtain ⟨k', -, hk'⟩ := List.exists_of_findSome?_eq_some h
    obtain ⟨rest', hafter, heq⟩ := Option.map_eq_some_iff.mp hk'
    cases heq
    exact after?_eq_some_iff.mp hafter
  · rintro rfl
    cases k <;> simp [Keyword.read?, Keyword.all, Keyword.text, after?]

theorem Keyword.isNameChar_of_mem {k : Keyword} {c : Char} (h : c ∈ k.text) :
    isNameChar c = true := by
  cases k <;> simp only [Keyword.text, List.mem_cons, List.not_mem_nil, or_false] at h <;>
    rcases h with rfl | rfl | rfl | rfl | rfl <;> rfl

/-- What a bound name or a braced list may be. -/
def Binding.Proper : Binding → Prop
  | .name id => id ≠ [] ∧ ∀ c ∈ id, isNameChar c = true
  | .braces inner => inner ≠ [] ∧ '}' ∉ inner

/-- What follows a bound name must not go on with it. -/
def Binding.EndsBefore : Binding → Text → Prop
  | .name _, rest => ∀ c ∈ rest.head?, isNameChar c = false
  | .braces _, _ => True

theorem Binding.read?_eq_some_iff {t rest : Text} {b : Binding} :
    Binding.read? t = some (b, rest) ↔ b.Proper ∧ b.EndsBefore rest ∧ t = b.text ++ rest := by
  unfold Binding.read?
  split
  · next t =>
    constructor
    · intro h
      split at h
      · next c inner d rest' hinner hrest =>
        cases h
        obtain ⟨rfl, hin, hd⟩ := takeWhile_dropWhile_iff.mp ⟨hinner, hrest⟩
        have hclose : d = '}' := by simpa using hd d (by simp)
        subst hclose
        refine ⟨⟨by simp, fun hmem => ?_⟩, trivial, by simp [Binding.text]⟩
        simpa using hin _ hmem
      · contradiction
    · rintro ⟨hproper, -, htext⟩
      cases b with
      | name id =>
        obtain ⟨hne, hid⟩ := hproper
        cases id with
        | nil => contradiction
        | cons c id =>
          have hc := hid c (by simp)
          simp only [Binding.text, List.cons_append, List.cons.injEq] at htext
          rw [← htext.1] at hc
          contradiction
      | braces inner =>
        obtain ⟨hne, hinner⟩ := hproper
        simp only [Binding.text, List.cons_append, List.append_assoc, List.nil_append,
          List.cons.injEq, true_and] at htext
        obtain ⟨htake, hdrop⟩ := takeWhile_dropWhile_iff (p := (· != '}')).mpr
          ⟨htext, fun c hc => by
            have : c ≠ '}' := fun heq => hinner (heq ▸ hc)
            simpa using this, by simp⟩
        rw [htake, hdrop]
        cases inner with
        | nil => contradiction
        | cons c inner => rfl
  · next t hbrace =>
    constructor
    · intro h
      split at h
      · contradiction
      · next c id hid =>
        cases h
        obtain ⟨heq, hall, hhead⟩ := takeWhile_dropWhile_iff.mp ⟨hid, rfl⟩
        exact ⟨⟨by simp, hall⟩, hhead, heq⟩
    · rintro ⟨hproper, hends, htext⟩
      cases b with
      | name id =>
        obtain ⟨hne, hid⟩ := hproper
        obtain ⟨htake, hdrop⟩ := takeWhile_dropWhile_iff.mpr ⟨htext, hid, hends⟩
        rw [htake, hdrop]
        cases id with
        | nil => contradiction
        | cons c id => rfl
      | braces inner => exact absurd htext (hbrace _)

theorem Quote.read?_eq_some_iff {t body rest : Text} {q : Quote} :
    Quote.read? t = some (q, body, rest) ↔
      body ≠ [] ∧ q.char ∉ body ∧ '\n' ∉ body ∧ t = q.wrap body ++ rest := by
  cases t with
  | nil => simp [Quote.read?, Quote.wrap]
  | cons c t =>
    simp only [Quote.read?]
    cases hc : Quote.ofChar? c with
    | none =>
      have hnot : c ≠ q.char := by
        intro heq
        rw [Quote.ofChar?_eq_some_iff.mpr heq] at hc
        contradiction
      simp [Quote.wrap, hnot]
    | some q' =>
      have hchar := Quote.ofChar?_eq_some_iff.mp hc
      subst hchar
      constructor
      · intro h
        dsimp only at h
        split at h
        · next d run e rest' hrun hrest =>
          split at h
          · next heq =>
            cases h
            subst heq
            obtain ⟨rfl, hin, -⟩ := takeWhile_dropWhile_iff.mp ⟨hrun, hrest⟩
            refine ⟨by simp, fun hmem => ?_, fun hmem => ?_, by simp [Quote.wrap]⟩
            · simpa using hin _ hmem
            · simpa using hin _ hmem
          · contradiction
        · contradiction
      · rintro ⟨hne, hquote, hline, htext⟩
        simp only [Quote.wrap, List.cons_append, List.append_assoc, List.nil_append,
          List.cons.injEq] at htext
        obtain ⟨hq, htext⟩ := htext
        obtain ⟨htake, hdrop⟩ := takeWhile_dropWhile_iff
          (p := fun d => !(d == q'.char || d == '\n')).mpr
          ⟨htext, fun d hd => by
            have h1 : d ≠ q'.char := fun heq => hquote (hq ▸ heq ▸ hd)
            have h2 : d ≠ '\n' := fun heq => hline (heq ▸ hd)
            simp [h1, h2], by simp [hq]⟩
        rw [htake, hdrop]
        have hqq : q' = q := by
          have h1 := Quote.ofChar?_eq_some_iff.mpr hq
          rw [hc] at h1
          exact Option.some.inj h1
        cases body with
        | nil => contradiction
        | cons d body => simp [hqq]

/-! White space between the parts. -/

theorem skipBlank_append {blank t : Text} (hblank : Blank blank)
    (ht : ∀ c ∈ t.head?, isBlank c = false) : Statement.skipBlank (blank ++ t) = t :=
  (takeWhile_dropWhile_iff.mpr ⟨rfl, hblank, ht⟩).2

theorem exists_blank_append_skipBlank (t : Text) :
    ∃ blank, Blank blank ∧ t = blank ++ Statement.skipBlank t ∧
      ∀ c ∈ (Statement.skipBlank t).head?, isBlank c = false := by
  obtain ⟨htext, hblank, hhead⟩ :=
    (takeWhile_dropWhile_iff (p := isBlank) (t := t)).mp ⟨rfl, rfl⟩
  exact ⟨t.takeWhile isBlank, hblank, htext, hhead⟩

theorem skipBlank1?_eq_some_iff {t rest : Text} :
    Statement.skipBlank1? t = some rest ↔
      ∃ blank, blank ≠ [] ∧ Blank blank ∧ t = blank ++ rest ∧
        ∀ c ∈ rest.head?, isBlank c = false := by
  constructor
  · intro h
    unfold Statement.skipBlank1? at h
    split at h
    · contradiction
    · next c t =>
      split at h
      · next hc =>
        cases h
        obtain ⟨blank, hblank, htext, hhead⟩ := exists_blank_append_skipBlank t
        refine ⟨c :: blank, by simp, ?_, by rw [List.cons_append, ← htext], hhead⟩
        exact List.forall_mem_cons.mpr ⟨hc, hblank⟩
      · contradiction
  · rintro ⟨blank, hne, hblank, rfl, hhead⟩
    cases blank with
    | nil => contradiction
    | cons c blank =>
      obtain ⟨hc, hblank⟩ := List.forall_mem_cons.mp hblank
      simp [Statement.skipBlank1?, hc, skipBlank_append hblank hhead]

theorem after?_skipBlank_eq_some_iff {c : Char} {word t rest : Text} (hc : isBlank c = false) :
    after? (c :: word) (Statement.skipBlank t) = some rest ↔
      ∃ blank, Blank blank ∧ t = blank ++ (c :: word ++ rest) := by
  rw [after?_eq_some_iff]
  constructor
  · intro h
    obtain ⟨blank, hblank, htext, -⟩ := exists_blank_append_skipBlank t
    exact ⟨blank, hblank, by rw [← h, ← htext]⟩
  · rintro ⟨blank, hblank, rfl⟩
    exact skipBlank_append hblank (by simpa using hc)

theorem Quote.isBlank_char (q : Quote) : isBlank q.char = false := by
  cases q <;> rfl

theorem Quote.read?_skipBlank_eq_some_iff {t body rest : Text} {q : Quote} :
    Quote.read? (Statement.skipBlank t) = some (q, body, rest) ↔
      body ≠ [] ∧ q.char ∉ body ∧ '\n' ∉ body ∧
        ∃ blank, Blank blank ∧ t = blank ++ (q.wrap body ++ rest) := by
  rw [Quote.read?_eq_some_iff]
  constructor
  · rintro ⟨hne, hquote, hline, htext⟩
    obtain ⟨blank, hblank, hcut, -⟩ := exists_blank_append_skipBlank t
    exact ⟨hne, hquote, hline, blank, hblank, by rw [← htext, ← hcut]⟩
  · rintro ⟨hne, hquote, hline, blank, hblank, rfl⟩
    refine ⟨hne, hquote, hline, skipBlank_append hblank ?_⟩
    simpa [Quote.wrap] using q.isBlank_char

/-! Whole statements. -/

namespace Statement

/-- `w` is one way to write the statement `s`. -/
inductive Written : Statement → Text → Prop where
  | intro {keyword : Keyword} {binding : Binding} {quote : Quote} {specifier : Text}
      {afterKeyword afterBinding afterEquals afterRequire afterOpening afterLiteral : Text}
      (hbinding : binding.Proper) (hne : specifier ≠ []) (hquote : quote.char ∉ specifier)
      (hline : '\n' ∉ specifier) (hsome : afterKeyword ≠ []) (hkeyword : Blank afterKeyword)
      (hbound : Blank afterBinding) (hequals : Blank afterEquals) (hrequire : Blank afterRequire)
      (hopening : Blank afterOpening) (hliteral : Blank afterLiteral) :
      Written ⟨keyword, binding, quote, specifier⟩
        (keyword.text ++ (afterKeyword ++ (binding.text ++ (afterBinding ++ (['='] ++
          (afterEquals ++ (requireWord ++ (afterRequire ++ (['('] ++ (afterOpening ++
            (quote.wrap specifier ++ (afterLiteral ++ [')']))))))))))))

theorem isBlank_head?_binding {b : Binding} (hb : b.Proper) (rest : Text) :
    ∀ c ∈ (b.text ++ rest).head?, isBlank c = false := by
  cases b with
  | name id =>
    obtain ⟨hne, hid⟩ := hb
    cases id with
    | nil => contradiction
    | cons c id =>
      simpa [Binding.text] using isBlank_eq_false_of_isNameChar (hid c (by simp))
  | braces inner =>
    simp only [Binding.text, List.cons_append, List.head?_cons, Option.mem_some_iff,
      forall_eq']
    rfl

theorem endsBefore_of_blank {b : Binding} {blank rest : Text} (hblank : Blank blank) :
    b.EndsBefore (blank ++ (['='] ++ rest)) := by
  cases b with
  | braces inner => trivial
  | name id =>
    intro c hc
    cases blank with
    | nil =>
      have heq : '=' = c := by simpa using hc
      subst heq
      rfl
    | cons d blank =>
      have heq : d = c := by simpa using hc
      exact isNameChar_eq_false_of_isBlank (heq ▸ hblank d (by simp))

/-- Reading takes a written statement off the front of a text, and nothing else. -/
theorem read?_eq_some_iff {t rest : Text} {s : Statement} :
    read? t = some (s, rest) ↔ ∃ w, s.Written w ∧ t = w ++ rest := by
  constructor
  · intro h
    simp only [read?, Option.bind_eq_bind, Option.bind_eq_some_iff, Prod.exists] at h
    obtain ⟨keyword, t1, h1, t2, h2, binding, t3, h3, t4, h4, t5, h5, t6, h6, quote, specifier,
      t7, h7, t8, h8, h9⟩ := h
    cases h9
    rw [Keyword.read?_eq_some_iff] at h1
    obtain ⟨a, hsome, ha, rfl, -⟩ := skipBlank1?_eq_some_iff.mp h2
    obtain ⟨hproper, -, rfl⟩ := Binding.read?_eq_some_iff.mp h3
    obtain ⟨b, hb, rfl⟩ := (after?_skipBlank_eq_some_iff rfl).mp h4
    obtain ⟨c, hc, rfl⟩ := (after?_skipBlank_eq_some_iff rfl).mp h5
    obtain ⟨d, hd, rfl⟩ := (after?_skipBlank_eq_some_iff rfl).mp h6
    obtain ⟨hne, hquote, hline, e, he, rfl⟩ := Quote.read?_skipBlank_eq_some_iff.mp h7
    obtain ⟨f, hf, rfl⟩ := (after?_skipBlank_eq_some_iff rfl).mp h8
    refine ⟨_, .intro hproper hne hquote hline hsome ha hb hc hd he hf, ?_⟩
    rw [h1]
    simp [requireWord]
  · rintro ⟨w, hw, rfl⟩
    cases hw with
    | @intro keyword binding quote specifier a b c d e f hproper hne hquote hline hsome ha hb hc hd
        he hf =>
      simp only [List.append_assoc]
      simp only [read?, Option.bind_eq_bind, Option.bind_eq_some_iff, Prod.exists]
      refine ⟨keyword, _, Keyword.read?_eq_some_iff.mpr rfl, _,
        skipBlank1?_eq_some_iff.mpr ⟨a, hsome, ha, rfl, isBlank_head?_binding hproper _⟩,
        binding, _, Binding.read?_eq_some_iff.mpr ⟨hproper, endsBefore_of_blank hb, rfl⟩,
        _, (after?_skipBlank_eq_some_iff rfl).mpr ⟨b, hb, rfl⟩,
        _, (after?_skipBlank_eq_some_iff rfl).mpr ⟨c, hc, rfl⟩,
        _, (after?_skipBlank_eq_some_iff rfl).mpr ⟨d, hd, rfl⟩,
        quote, specifier, _,
        Quote.read?_skipBlank_eq_some_iff.mpr ⟨hne, hquote, hline, e, he, rfl⟩,
        _, (after?_skipBlank_eq_some_iff rfl).mpr ⟨f, hf, rfl⟩, rfl⟩

/-! What stands around the binding of a statement. -/

/-- Neither a dot nor an opening brace stands outside the binding and the specifier. -/
theorem Written.exists_frame {s : Statement} {w : Text} (h : s.Written w) :
    ∃ x y z, w = x ++ (s.binding.text ++ (y ++ (s.quote.wrap s.specifier ++ z))) ∧
      (∀ a ∈ x ++ (y ++ z), a ≠ '.' ∧ a ≠ '{') ∧
      ∀ b : Binding, b.Proper →
        Written { s with binding := b }
          (x ++ (b.text ++ (y ++ (s.quote.wrap s.specifier ++ z)))) := by
  cases h with
  | @intro keyword binding quote specifier a b c d e f hproper hne hquote hline hsome ha hb hc hd
      he hf =>
    have hblank {t : Text} (ht : Blank t) : ∀ a ∈ t, a ≠ '.' ∧ a ≠ '{' := by
      intro a ha
      have hchar := ht a ha
      constructor <;> rintro rfl <;> contradiction
    have hkeyword : ∀ a ∈ keyword.text, a ≠ '.' ∧ a ≠ '{' := by
      intro a ha
      have hchar := Keyword.isNameChar_of_mem ha
      constructor <;> rintro rfl <;> contradiction
    have hrequire : ∀ a ∈ requireWord, a ≠ '.' ∧ a ≠ '{' := by simp [requireWord]
    refine ⟨keyword.text ++ a, b ++ ('=' :: (c ++ (requireWord ++ (d ++ '(' :: e)))), f ++ [')'],
      by simp, ?_, fun b' hb' => ?_⟩
    · simp only [List.mem_append, List.mem_cons, List.not_mem_nil, or_false]
      rintro a ((h | h) | (h | rfl | h | h | h | rfl | h) | h | rfl)
      · exact hkeyword a h
      · exact hblank ha a h
      · exact hblank hb a h
      · decide
      · exact hblank hc a h
      · exact hrequire a h
      · exact hblank hd a h
      · decide
      · exact hblank he a h
      · exact hblank hf a h
      · decide
    · have hwritten : Written ⟨keyword, b', quote, specifier⟩ _ :=
        .intro hb' hne hquote hline hsome ha hb hc hd he hf
      simpa using hwritten

theorem count_frame (q : Quote) (body : Text) {x y z : Text} {a : Char} (ha : a = '.' ∨ a = '{')
    (hframe : ∀ a ∈ x ++ (y ++ z), a ≠ '.' ∧ a ≠ '{') :
    x.count a = 0 ∧ (y ++ (q.wrap body ++ z)).count a = body.count a := by
  have hout : ∀ t : Text, (∀ b ∈ t, b ∈ x ++ (y ++ z)) → t.count a = 0 := by
    intro t ht
    rw [List.count_eq_zero]
    intro hmem
    obtain ⟨hdot, hbrace⟩ := hframe a (ht a hmem)
    exact ha.elim hdot hbrace
  have hquote : q.char ≠ a := by
    rcases ha with rfl | rfl <;> cases q <;> decide
  refine ⟨hout x fun b hb => by simp [hb], ?_⟩
  have hy := hout y fun b hb => by simp [hb]
  have hz := hout z fun b hb => by simp [hb]
  simp [Quote.wrap, List.count_append, hy, hz, hquote]

theorem Written.count_eq {s : Statement} {w : Text} (h : s.Written w) {a : Char}
    (ha : a = '.' ∨ a = '{') :
    w.count a = s.binding.text.count a + s.specifier.count a := by
  obtain ⟨x, y, z, rfl, hframe, -⟩ := h.exists_frame
  obtain ⟨hx, hyz⟩ := count_frame s.quote s.specifier ha hframe
  rw [List.count_append, List.count_append, hx, hyz, Nat.zero_add]

end Statement
end Namespacer
