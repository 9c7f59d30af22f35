import Namespacer.Proofs.Import.Collapse

/-! Several imports collapsed in one text. An import of the text is left alone exactly if no
collapse finds its braces or one of its symbols in it, and it binds a name exactly if its own
collapse finds its braces as they were and nothing but them. -/
namespace Namespacer

open Text

namespace Collapse

def appliedAll (steps : List Collapse) (t : Text) : Text := steps.foldl (fun t c => c.applied t) t

def withinAll (steps : List Collapse) (w : Text) : Text := steps.foldl (fun w c => c.within w) w

/-- Whether the text of an import reads as one after every collapse. -/
def staysImport : List Collapse → Text → Bool
  | [], _ => true
  | c :: steps, w => Statement.isWhole (c.within w) && staysImport steps (c.within w)

/-- Whether no collapse makes a statement of other text, or takes one away behind braces. -/
def isClearAll : List Collapse → Text → Bool
  | [], _ => true
  | c :: steps, t => c.isClear t && isClearAll steps (c.applied t)

@[simp] theorem appliedAll_cons (c : Collapse) (steps : List Collapse) (t : Text) :
    appliedAll (c :: steps) t = appliedAll steps (c.applied t) := rfl

@[simp] theorem withinAll_cons (c : Collapse) (steps : List Collapse) (w : Text) :
    withinAll (c :: steps) w = withinAll steps (c.within w) := rfl

theorem withinAll_append (steps later : List Collapse) (w : Text) :
    withinAll (steps ++ later) w = withinAll later (withinAll steps w) := List.foldl_append

theorem staysImport_append (steps later : List Collapse) (w : Text) :
    staysImport (steps ++ later) w =
      (staysImport steps w && staysImport later (withinAll steps w)) := by
  induction steps generalizing w with
  | nil => rfl
  | cons c steps ih => rw [List.cons_append, staysImport, staysImport, ih, Bool.and_assoc]; rfl

/-! The imports of the text that is left. -/

theorem importTexts_appliedAll {steps : List Collapse} (hproper : ∀ c ∈ steps, c.Proper) {t : Text}
    (hclear : isClearAll steps t = true) (hflat : isFlat none t = true) :
    importTexts (appliedAll steps t) =
      ((importTexts t).filter (staysImport steps)).map (withinAll steps) := by
  induction steps generalizing t with
  | nil =>
    have hall : (importTexts t).filter (staysImport []) = importTexts t :=
      List.filter_eq_self.mpr fun _ _ => rfl
    have hid : withinAll [] = id := rfl
    rw [hall, hid, List.map_id]
    rfl
  | cons c steps ih =>
    obtain ⟨hc, hproper⟩ := List.forall_mem_cons.mp hproper
    rw [isClearAll, Bool.and_eq_true] at hclear
    rw [appliedAll_cons, ih hproper hclear.2 (hc.isFlat_applied hclear.1 hflat),
      hc.importTexts_applied hclear.1 hflat, List.filter_filter, List.filter_map, List.map_map]
    congr 2
    funext w
    exact Bool.and_comm _ _

theorem exists_importTexts_appliedAll {steps : List Collapse} (hproper : ∀ c ∈ steps, c.Proper)
    {t : Text} (hclear : isClearAll steps t = true) {ws rest : List Text}
    (h : importTexts t = ws ++ rest) (hstays : ∀ w ∈ ws, staysImport steps w = true) :
    ∃ rest', importTexts (appliedAll steps t) = ws.map (withinAll steps) ++ rest' := by
  induction steps generalizing t ws rest with
  | nil =>
    have hid : withinAll [] = id := rfl
    rw [hid, List.map_id]
    exact ⟨rest, h⟩
  | cons c steps ih =>
    obtain ⟨hc, hproper⟩ := List.forall_mem_cons.mp hproper
    simp only [isClearAll, staysImport, Bool.and_eq_true] at hclear hstays
    obtain ⟨rest₁, h₁⟩ :=
      hc.exists_importTexts_applied hclear.1 h fun w hw => (hstays w hw).1
    have hnext : ∀ w ∈ ws.map c.within, staysImport steps w = true :=
      List.forall_mem_map.mpr fun w hw => (hstays w hw).2
    obtain ⟨rest', h'⟩ := ih hproper hclear.2 h₁ hnext
    rw [List.map_map] at h'
    exact ⟨rest', h'⟩

/-- Where no import up to some place is lost, the one there stands where it stood. -/
theorem getElem?_importsOf_appliedAll {steps : List Collapse} (hproper : ∀ c ∈ steps, c.Proper)
    {t : Text} (hclear : isClearAll steps t = true) {p : Nat} {i : Import}
    (hi : (importsOf t)[p]? = some i)
    (hstays : ∀ j ∈ (importsOf t).take (p + 1), staysImport steps (j.textIn t) = true)
    (s : Statement) :
    (importsOf (appliedAll steps t))[p]?.map Import.toStatement = some s ↔
      s.Written (withinAll steps (i.textIn t)) := by
  obtain ⟨rest, htexts⟩ := exists_importTexts_appliedAll hproper hclear
    (importTexts_eq_append t (p + 1)) (List.forall_mem_map.mpr hstays)
  have hplace : (importTexts (appliedAll steps t))[p]? = some (withinAll steps (i.textIn t)) := by
    have hfound : ((importsOf t).take (p + 1))[p]? = some i := by
      rw [List.getElem?_take_of_succ, hi]
    have hlen := (List.getElem?_eq_some_iff.mp hfound).1
    rw [htexts, List.getElem?_append_left (by simpa using hlen), List.getElem?_map,
      List.getElem?_map, hfound]
    rfl
  rw [importTexts, List.getElem?_map] at hplace
  obtain ⟨j, hj, htext⟩ := Option.map_eq_some_iff.mp hplace
  have hwritten := written_textIn (List.mem_of_getElem? hj)
  rw [htext] at hwritten
  rw [hj, Option.map_some, Option.some_inj]
  constructor
  · rintro rfl
    exact hwritten
  · exact hwritten.unique

/-- Where no statement stands inside another, each import becomes what it is to be exactly if all
stay imports and the edited text of each reads as that. -/
theorem statements_appliedAll_iff {steps : List Collapse} (hproper : ∀ c ∈ steps, c.Proper)
    {t : Text} (hclear : isClearAll steps t = true) (hflat : isFlat none t = true)
    (become : Import → Statement) :
    (importsOf (appliedAll steps t)).map Import.toStatement = (importsOf t).map become ↔
      ∀ i ∈ importsOf t, staysImport steps (i.textIn t) = true ∧
        (become i).Written (withinAll steps (i.textIn t)) := by
  have htexts := importTexts_appliedAll hproper hclear hflat
  -- where all stay, the imports can be compared place by place
  have hplace (hstays : ∀ w ∈ importTexts t, staysImport steps w = true) {p : Nat} {i : Import}
      (hp : (importsOf t)[p]? = some i) :
      ((importsOf (appliedAll steps t)).map Import.toStatement)[p]? = some (become i) ↔
        (become i).Written (withinAll steps (i.textIn t)) := by
    rw [List.getElem?_map]
    exact getElem?_importsOf_appliedAll hproper hclear hp
      (fun j hj => hstays _ (List.mem_map_of_mem (List.mem_of_mem_take hj))) _
  constructor
  · intro hall
    have hlength : ((importTexts t).filter (staysImport steps)).length =
        (importTexts t).length := by
      have hleft := congrArg List.length htexts
      have hcount := congrArg List.length hall
      simp only [importTexts, List.length_map] at hleft hcount ⊢
      omega
    have hstays := List.length_filter_eq_length_iff.mp hlength
    intro i hi
    obtain ⟨p, hp⟩ := List.getElem?_of_mem hi
    refine ⟨hstays _ (List.mem_map_of_mem hi), (hplace hstays hp).mp ?_⟩
    rw [hall, List.getElem?_map, hp]
    rfl
  · intro hall
    have hstays : ∀ w ∈ importTexts t, staysImport steps w = true :=
      List.forall_mem_map.mpr fun i hi => (hall i hi).1
    rw [List.filter_eq_self.mpr hstays] at htexts
    refine List.ext_getElem? fun p => ?_
    cases hp : (importsOf t)[p]? with
    | none =>
      have hlength := congrArg List.length htexts
      simp only [importTexts, List.length_map] at hlength
      rw [List.getElem?_eq_none_iff] at hp
      simp [hlength, hp]
    | some i =>
      rw [(hplace hstays hp).mpr (hall i (List.mem_of_getElem? hp)).2, List.getElem?_map, hp]
      rfl

/-! What becomes of one import. -/

section Counts

variable {steps : List Collapse} (hproper : ∀ c ∈ steps, c.Proper)

include hproper

theorem count_dot_withinAll_le (w : Text) : w.count '.' ≤ (withinAll steps w).count '.' := by
  induction steps generalizing w with
  | nil => exact Nat.le_refl _
  | cons c steps ih =>
    obtain ⟨hc, hproper⟩ := List.forall_mem_cons.mp hproper
    exact Nat.le_trans (hc.count_dot_within_le w) (ih hproper (c.within w))

theorem count_brace_withinAll_le (w : Text) : (withinAll steps w).count '{' ≤ w.count '{' := by
  induction steps generalizing w with
  | nil => exact Nat.le_refl _
  | cons c steps ih =>
    obtain ⟨hc, hproper⟩ := List.forall_mem_cons.mp hproper
    exact Nat.le_trans (ih hproper (c.within w)) (hc.count_brace_within_le w)

theorem withinAll_eq_self {w : Text} (h : ∀ c ∈ steps, c.record.LeavesAlone w) :
    withinAll steps w = w := by
  induction steps with
  | nil => rfl
  | cons c steps ih =>
    obtain ⟨hc, hproper⟩ := List.forall_mem_cons.mp hproper
    obtain ⟨halone, h⟩ := List.forall_mem_cons.mp h
    rw [withinAll_cons, hc.within_eq_self halone, ih hproper h]

theorem staysImport_of_leavesAlone {s : Statement} {w : Text} (hw : s.Written w)
    (h : ∀ c ∈ steps, c.record.LeavesAlone w) : staysImport steps w = true := by
  induction steps with
  | nil => rfl
  | cons c steps ih =>
    obtain ⟨hc, hproper⟩ := List.forall_mem_cons.mp hproper
    obtain ⟨halone, h⟩ := List.forall_mem_cons.mp h
    rw [staysImport, hc.within_eq_self halone, Statement.isWhole_iff.mpr ⟨s, hw⟩, ih hproper h]
    rfl

theorem forall_leavesAlone_of_count {w : Text} (hdot : (withinAll steps w).count '.' = w.count '.')
    (hbrace : (withinAll steps w).count '{' = w.count '{') :
    ∀ c ∈ steps, c.record.LeavesAlone w := by
  induction steps with
  | nil => simp
  | cons c steps ih =>
    obtain ⟨hc, hproper⟩ := List.forall_mem_cons.mp hproper
    have halone : c.record.LeavesAlone w := by
      have hdot₁ := hc.count_dot_within_le w
      have hdot₂ := count_dot_withinAll_le hproper (c.within w)
      have hbrace₁ := hc.count_brace_within_le w
      have hbrace₂ := count_brace_withinAll_le hproper (c.within w)
      rw [withinAll_cons] at hdot hbrace
      exact hc.leavesAlone_of_count (by omega) (by omega)
    rw [withinAll_cons, hc.within_eq_self halone] at hdot hbrace
    exact List.forall_mem_cons.mpr ⟨halone, ih hproper hdot hbrace⟩

/-- An import reads as before exactly if every collapse leaves its text alone. -/
theorem written_withinAll_iff {s : Statement} {w : Text} (hw : s.Written w) :
    s.Written (withinAll steps w) ↔ ∀ c ∈ steps, c.record.LeavesAlone w := by
  constructor
  · intro hafter
    apply forall_leavesAlone_of_count hproper
    · rw [hw.count_eq (.inl rfl), hafter.count_eq (.inl rfl)]
    · rw [hw.count_eq (.inr rfl), hafter.count_eq (.inr rfl)]
  · intro h
    rw [withinAll_eq_self hproper h]
    exact hw

end Counts

/-! An import and its own collapse. -/

section Own

variable {c : Collapse} (hc : c.Proper) {s : Statement} {w : Text} (hw : s.Written w)
  (hbinding : s.binding.text = c.record.binding)

include hc hw hbinding

theorem Proper.exists_bound_eq :
    ∃ x rest, w = x ++ (c.record.binding ++ rest) ∧ c.bound w = x ++ (c.name ++ c.bound rest) ∧
      x.count '{' = 0 ∧ rest.count '{' = s.specifier.count '{' ∧
      (c.record.binding <:+: rest ↔ c.record.binding <:+: s.specifier) ∧
      Statement.Written { s with binding := .name c.name } (x ++ (c.name ++ rest)) := by
  obtain ⟨x, y, z, rfl, hframe, hreplace⟩ := hw.exists_frame
  obtain ⟨inner, hbraces, -⟩ := hc.binding
  have hcount := Statement.count_frame s.quote s.specifier (.inr rfl) hframe
  refine ⟨x, _, by rw [hbinding], ?_, hcount.1, hcount.2, ?_,
    hreplace (.name c.name) ⟨ne_nil_of_isIdentifier hc.name, isNameChar_of_isIdentifier hc.name⟩⟩
  · have hx : '{' ∉ x := List.count_eq_zero.mp hcount.1
    rw [hbinding, bound, hbraces, replaceAll_append_of_not_mem c.name hx, ← hbraces,
      replaceAll_append c.name hc.ne_nil]
    rfl
  · have hquote : s.quote.char ∉ c.record.binding := by
      cases s.quote <;> exact hc.not_mem rfl (by decide) (by decide)
    have hopen : '{' ∈ c.record.binding := by simp [hbraces]
    constructor
    · intro h
      rw [Quote.wrap, List.append_assoc, List.cons_append, List.singleton_append] at h
      rcases infix_or_infix_of_not_mem hquote h with h | h
      · exact absurd rfl (hframe '{' (by simp [h.subset hopen])).2
      · rcases infix_or_infix_of_not_mem hquote h with h | h
        · exact h
        · exact absurd rfl (hframe '{' (by simp [h.subset hopen])).2
    · rintro ⟨u, v, h⟩
      refine ⟨y ++ s.quote.char :: u, v ++ s.quote.char :: z, ?_⟩
      simp [Quote.wrap, ← h]

theorem Proper.bound_written (hspecifier : ¬ c.record.binding <:+: s.specifier) :
    Statement.Written { s with binding := .name c.name } (c.bound w) := by
  obtain ⟨x, rest, -, hbound, -, -, hwithin, hwritten⟩ := hc.exists_bound_eq hw hbinding
  have hrest : c.bound rest = rest :=
    replaceAll_of_not_infix c.name hc.ne_nil (mt hwithin.mp hspecifier)
  rwa [hbound, hrest]

theorem Proper.count_brace_bound_of_infix (hspecifier : c.record.binding <:+: s.specifier) :
    (c.bound w).count '{' < s.specifier.count '{' := by
  obtain ⟨x, rest, -, hbound, hx, hrest, hwithin, -⟩ := hc.exists_bound_eq hw hbinding
  have hlt := hc.count_brace_bound_lt (hwithin.mpr hspecifier)
  rw [hbound, List.count_append, List.count_append, hx, hc.count_brace_name]
  omega

theorem Proper.binding_infix : c.record.binding <:+: w := by
  obtain ⟨x, rest, hcut, -⟩ := hc.exists_bound_eq hw hbinding
  exact ⟨x, rest, by rw [hcut, List.append_assoc]⟩

/-- Where no dot is added and one brace is lost, it is the own collapse that took it. -/
theorem Proper.own_of_count {later : List Collapse} (hlater : ∀ e ∈ later, e.Proper)
    (hdot : (withinAll (c :: later) w).count '.' = w.count '.')
    (hbrace : (withinAll (c :: later) w).count '{' = s.specifier.count '{')
    (hone : w.count '{' = s.specifier.count '{' + 1) :
    ¬ c.record.binding <:+: s.specifier ∧
      (∀ symbol ∈ c.record.symbols, usesBare symbol (c.bound w) = false) ∧
      ∀ e ∈ later, e.record.LeavesAlone (c.bound w) := by
  rw [withinAll_cons] at hdot hbrace
  have hdot₁ := hc.count_dot_within_le w
  have hdot₂ := count_dot_withinAll_le hlater (c.within w)
  obtain ⟨hwithin, hbare⟩ := hc.within_eq_bound (w := w) (by omega)
  rw [hwithin] at hdot hbrace
  have hlost := hc.count_brace_bound_lt (hc.binding_infix hw hbinding)
  have hle := count_brace_withinAll_le hlater (c.bound w)
  refine ⟨fun hspecifier => ?_, hbare, forall_leavesAlone_of_count hlater ?_ ?_⟩
  · have hlt := hc.count_brace_bound_of_infix hw hbinding hspecifier
    omega
  · rw [hdot, hc.count_dot_bound]
  · omega

/-- An import in which only its own collapse finds something, and just the braces, stays one and
comes to bind the name. -/
theorem Proper.stays_own {earlier later : List Collapse}
    (hproper : ∀ e ∈ earlier ++ c :: later, e.Proper)
    (halone : ∀ e ∈ earlier, e.record.LeavesAlone w)
    (hspecifier : ¬ c.record.binding <:+: s.specifier)
    (hbare : ∀ symbol ∈ c.record.symbols, usesBare symbol (c.bound w) = false)
    (halone' : ∀ e ∈ later, e.record.LeavesAlone (c.bound w)) :
    staysImport (earlier ++ c :: later) w = true ∧
      Statement.Written { s with binding := .name c.name }
        (withinAll (earlier ++ c :: later) w) := by
  have hearlier : ∀ e ∈ earlier, e.Proper := fun e he => hproper e (by simp [he])
  have hlater : ∀ e ∈ later, e.Proper := fun e he => hproper e (by simp [he])
  have hwithin : c.within w = c.bound w := qualifyAllWithin_eq_self hbare
  have hbound := hc.bound_written hw hbinding hspecifier
  constructor
  · rw [staysImport_append, staysImport_of_leavesAlone hearlier hw halone,
      withinAll_eq_self hearlier halone, staysImport, hwithin,
      Statement.isWhole_iff.mpr ⟨_, hbound⟩, staysImport_of_leavesAlone hlater hbound halone']
    rfl
  · rw [withinAll_append, withinAll_eq_self hearlier halone, withinAll_cons, hwithin,
      withinAll_eq_self hlater halone']
    exact hbound

/-- An import binds the name of its collapse, and nothing else about it has changed, exactly if the
collapses before leave it alone, its own finds its braces once and none of its symbols, and those
after leave alone what has become of it. A name that an earlier collapse put in is another one. -/
theorem written_name_iff {earlier later : List Collapse}
    (hproper : ∀ e ∈ earlier ++ c :: later, e.Proper)
    (hfresh : ∀ s' : Statement, s'.Written (withinAll earlier w) → s'.binding ≠ .name c.name) :
    Statement.Written { s with binding := .name c.name } (withinAll (earlier ++ c :: later) w) ↔
      (∀ e ∈ earlier, e.record.LeavesAlone w) ∧ ¬ c.record.binding <:+: s.specifier ∧
        (∀ symbol ∈ c.record.symbols, usesBare symbol (c.bound w) = false) ∧
        ∀ e ∈ later, e.record.LeavesAlone (c.bound w) := by
  have hearlier : ∀ e ∈ earlier, e.Proper := fun e he => hproper e (by simp [he])
  have hlater : ∀ e ∈ later, e.Proper := fun e he => hproper e (by simp [he])
  have hrest : ∀ e ∈ c :: later, e.Proper := List.forall_mem_cons.mpr ⟨hc, hlater⟩
  constructor
  · intro hafter
    rw [withinAll_append] at hafter
    have hdots := hafter.count_eq (.inl rfl)
    have hbraces := hafter.count_eq (.inr rfl)
    have hdot : w.count '.' = s.specifier.count '.' := by
      rw [hw.count_eq (.inl rfl), hbinding,
        List.count_eq_zero.mpr (hc.not_mem rfl (by decide) (by decide)), Nat.zero_add]
    have hbrace : w.count '{' = s.specifier.count '{' + 1 := by
      rw [hw.count_eq (.inr rfl), hbinding, hc.count_brace_binding, Nat.add_comm]
    simp only [Binding.text] at hdots hbraces
    rw [List.count_eq_zero.mpr (not_mem_of_isIdentifier hc.name rfl), Nat.zero_add] at hdots
    rw [hc.count_brace_name, Nat.zero_add] at hbraces
    have hdot₁ := count_dot_withinAll_le hearlier w
    have hdot₂ := count_dot_withinAll_le hrest (withinAll earlier w)
    have hbrace₁ := count_brace_withinAll_le hearlier w
    have hbrace₂ := count_brace_withinAll_le hrest (withinAll earlier w)
    by_cases hkept : (withinAll earlier w).count '{' = w.count '{'
    · have halone := forall_leavesAlone_of_count hearlier (by omega) hkept
      rw [withinAll_eq_self hearlier halone] at hdots hbraces
      exact ⟨halone, hc.own_of_count hw hbinding hlater (by omega) (by omega) hbrace⟩
    · have halone : ∀ e ∈ c :: later, e.record.LeavesAlone (withinAll earlier w) :=
        forall_leavesAlone_of_count hrest (by omega) (by omega)
      rw [withinAll_eq_self hrest halone] at hafter
      exact absurd rfl (hfresh _ hafter)
  · rintro ⟨halone, hspecifier, hbare, halone'⟩
    exact (hc.stays_own hw hbinding hproper halone hspecifier hbare halone').2

end Own
end Collapse
end Namespacer
