import Namespacer.Proofs.Import.Completion
import Namespacer.Proofs.Import.Survey
import Namespacer.Proofs.Path.Form

/-! The fixes of a survey together. Applied one after another they complete every specifier that
lacks an ending and leave the others as they are. -/
namespace Namespacer

open Text

def statementsOf (source : Text) : List Statement := (importsOf source).map Import.toStatement

theorem forall₂_trans {α β γ : Type} {R : α → β → Prop} {S : β → γ → Prop} {T : α → γ → Prop}
    (hcomp : ∀ {a b c}, R a b → S b c → T a c) {as : List α} {bs : List β} {cs : List γ}
    (h : List.Forall₂ R as bs) (h' : List.Forall₂ S bs cs) : List.Forall₂ T as cs := by
  induction h generalizing cs with
  | nil =>
    cases h'
    exact .nil
  | cons hab _ ih =>
    cases h' with
    | cons hbc hrest => exact .cons (hcomp hab hbc) (ih hrest)

theorem forall₂_of_mem {α β : Type} {R S : α → β → Prop} {as : List α} {bs : List β}
    (h : List.Forall₂ R as bs) (himp : ∀ a ∈ as, ∀ b ∈ bs, R a b → S a b) :
    List.Forall₂ S as bs := by
  induction h with
  | nil => exact .nil
  | cons hab _ ih =>
    refine .cons (himp _ List.mem_cons_self _ List.mem_cons_self hab) (ih fun a ha b hb => ?_)
    exact himp a (List.mem_cons_of_mem _ ha) b (List.mem_cons_of_mem _ hb)

theorem exists_left_of_mem {α β : Type} {R : α → β → Prop} {as : List α} {bs : List β}
    (h : List.Forall₂ R as bs) {b : β} (hb : b ∈ bs) : ∃ a ∈ as, R a b := by
  induction h with
  | nil => contradiction
  | cons hab _ ih =>
    rcases List.mem_cons.mp hb with rfl | hb
    · exact ⟨_, List.mem_cons_self, hab⟩
    · obtain ⟨a, ha, hr⟩ := ih hb
      exact ⟨a, List.mem_cons_of_mem _ ha, hr⟩

theorem exists_right_of_mem {α β : Type} {R : α → β → Prop} {as : List α} {bs : List β}
    (h : List.Forall₂ R as bs) {a : α} (ha : a ∈ as) : ∃ b ∈ bs, R a b :=
  exists_left_of_mem (R := flip R) h.flip ha

theorem forall_mem_iff_of_forall₂ {α β : Type} {R : α → β → Prop} {P : α → Prop} {Q : β → Prop}
    {as : List α} {bs : List β} (h : List.Forall₂ R as bs)
    (hiff : ∀ {a b}, R a b → (P a ↔ Q b)) : (∀ a ∈ as, P a) ↔ ∀ b ∈ bs, Q b := by
  induction h with
  | nil => simp
  | cons hab _ ih => rw [List.forall_mem_cons, List.forall_mem_cons, hiff hab, ih]

namespace PathFix

theorem isPlain_complete {f : PathFix} {q : Quote} {specifier : Text} (h : IsPlain specifier) :
    IsPlain (f.complete q specifier) := by
  unfold complete
  split
  · refine ⟨fun q' hmem => ?_, ?_⟩
    · rcases List.mem_append.mp hmem with hmem | hmem
      · exact h.not_mem q' hmem
      · have hquote := (Ending.ne_of_mem hmem).1
        rw [isQuote_char] at hquote
        contradiction
    · intro hopens
      obtain ⟨init, k, heq, hk⟩ := hopens.exists_last
      have hlast := congrArg List.getLast? heq
      cases hending : f.ending <;> simp [hending, Ending.text] at hlast <;> subst hlast <;>
        rcases hk with hk | hk <;> contradiction
  · exact h

theorem statementsOf_apply {f : PathFix} (hf : f.Proper) {t : Text}
    (hplain : ∀ s ∈ statementsOf t, IsPlain s.specifier) :
    List.Forall₂ (·.Revised f.complete ·) (statementsOf t) (statementsOf (f.patch.apply t)) := by
  have htexts : ∀ s : Statement, ∀ w ∈ importTexts t, s.Written w → IsPlain s.specifier := by
    intro s w hw hs
    obtain ⟨i, hi, rfl⟩ := List.mem_map.mp hw
    rw [hs.unique (written_textIn hi)]
    exact hplain _ (List.mem_map_of_mem hi)
  obtain ⟨ws', hws', hrevised⟩ :=
    Edits.scans hf (scans_importTexts t) (Edits.apply f t) (by simp [Pending]) htexts
  obtain rfl := hws'.importTexts_eq
  unfold importTexts at hrevised
  unfold statementsOf
  rw [List.forall₂_map_left_iff, List.forall₂_map_right_iff] at hrevised ⊢
  refine forall₂_of_mem hrevised fun i hi i' hi' => ?_
  rintro ⟨s, s', hs, hs', hrevises⟩
  rwa [hs.unique (written_textIn hi), hs'.unique (written_textIn hi')] at hrevises

/-- A quoted specifier as it reads when fixes are applied one after another. -/
def completeAll (fixes : List PathFix) (q : Quote) (specifier : Text) : Text :=
  fixes.foldl (fun specifier f => f.complete q specifier) specifier

theorem statementsOf_applyAll {fixes : List PathFix} (hfixes : ∀ f ∈ fixes, f.Proper) {t : Text}
    (hplain : ∀ s ∈ statementsOf t, IsPlain s.specifier) :
    List.Forall₂ (·.Revised (completeAll fixes) ·) (statementsOf t)
      (statementsOf (Patch.applyAll (fixes.map patch) t)) := by
  induction fixes generalizing t with
  | nil => exact List.forall₂_same.mpr fun s _ => ⟨rfl, rfl, rfl, .inl rfl⟩
  | cons f fixes ih =>
    obtain ⟨hf, hfixes⟩ := List.forall_mem_cons.mp hfixes
    have hfirst := statementsOf_apply hf hplain
    have hplain' : ∀ s' ∈ statementsOf (f.patch.apply t), IsPlain s'.specifier := by
      intro s' hs'
      obtain ⟨s, hs, hrevised⟩ := exists_left_of_mem hfirst hs'
      rw [hrevised.specifier]
      exact isPlain_complete (hplain s hs)
    exact forall₂_trans (fun h h' => h.trans h') hfirst (ih hfixes hplain')

section Forms

variable {site : Site} {probe : Probe} {fixes : List PathFix}
  (hfixes : ∀ f ∈ fixes, site.formOf probe f.specifier = .lacks f.ending)

include hfixes

theorem completeAll_of_complete {q : Quote} {specifier : Text}
    (h : ∀ ending, site.formOf probe specifier ≠ .lacks ending) :
    completeAll fixes q specifier = specifier := by
  induction fixes with
  | nil => rfl
  | cons f fixes ih =>
    obtain ⟨hf, hfixes⟩ := List.forall_mem_cons.mp hfixes
    have hother : q.wrap specifier ≠ f.pattern := by
      intro heq
      obtain ⟨-, rfl⟩ := Quote.wrap_inj heq
      exact h f.ending hf
    rw [completeAll, List.foldl_cons, complete, if_neg hother]
    exact ih hfixes

theorem completeAll_of_mem {q : Quote} {specifier : Text} {ending : Ending}
    (h : ⟨ending, q, specifier⟩ ∈ fixes) :
    completeAll fixes q specifier = specifier ++ ending.text := by
  induction fixes with
  | nil => contradiction
  | cons f fixes ih =>
    have hself := hfixes _ h
    obtain ⟨hf, hfixes⟩ := List.forall_mem_cons.mp hfixes
    rw [completeAll, List.foldl_cons, complete]
    split
    · next heq =>
      -- once completed, a specifier is left alone by all other fixes
      obtain ⟨-, rfl⟩ := Quote.wrap_inj heq
      obtain rfl : f.ending = ending := by simpa [hf] using hself
      exact completeAll_of_complete hfixes fun e => by simp [Site.formOf_append]
    · next hne =>
      rcases List.mem_cons.mp h with rfl | h
      · exact absurd rfl hne
      · exact ih hfixes h

end Forms
end PathFix

namespace Survey

variable {site : Site} {probe : Probe} {owner? : Text → Option ModulePath} {pathsOnly : Bool}

theorem add_fixes {a b : Survey} {s : Statement}
    (h : a.add site probe owner? pathsOnly s = .ok b) :
    b.fixes = (a.checkForm site probe s).fixes := by
  unfold add at h
  dsimp only at h
  split at h
  · unfold addPlain at h
    dsimp only at h
    split at h
    · contradiction
    · cases h
      rfl
  · cases h
    split
    · rfl
    · unfold addDestructuring
      dsimp only
      split
      · rfl
      · split <;> rfl

theorem formOf_of_fix? {s : Statement} {f : PathFix} (h : s.fix? site probe = some f) :
    site.formOf probe f.specifier = .lacks f.ending := by
  unfold Statement.fix? at h
  split at h
  · next hform =>
    cases h
    exact hform
  · contradiction

theorem specifier_of_fix? {s : Statement} {f : PathFix} (h : s.fix? site probe = some f) :
    f.specifier = s.specifier := by
  unfold Statement.fix? at h
  split at h
  · cases h
    rfl
  · contradiction

/-- A fix for the statement is there afterwards, and all others were there before. -/
theorem mem_checkForm_iff {a : Survey} {s : Statement}
    (ha : ∀ f ∈ a.fixes, site.formOf probe f.specifier = .lacks f.ending) (f : PathFix) :
    f ∈ (a.checkForm site probe s).fixes ↔ f ∈ a.fixes ∨ s.fix? site probe = some f := by
  unfold checkForm
  dsimp only
  cases hfix : s.fix? site probe with
  | none => simp
  | some g =>
    dsimp only
    unfold addFix
    split
    · next hany =>
      refine ⟨.inl, fun h => h.elim id fun hg => ?_⟩
      cases hg
      obtain ⟨g, hg, hpattern⟩ := List.any_eq_true.mp hany
      obtain ⟨hquote, hspecifier⟩ := Quote.wrap_inj (of_decide_eq_true hpattern)
      -- the specifier decides what it lacks
      have hending := formOf_of_fix? hfix
      rw [← hspecifier, ha g hg, PathForm.lacks.injEq] at hending
      obtain ⟨ending, quote, specifier⟩ := g
      cases f
      subst hquote hspecifier hending
      exact hg
    · simp [eq_comm]

theorem ofSource_fixes {source : Text} {survey : Survey}
    (h : ofSource site probe owner? pathsOnly source = .ok survey) (f : PathFix) :
    f ∈ survey.fixes ↔ ∃ s ∈ statementsOf source, s.fix? site probe = some f := by
  have hall := ofSource_induction (motive := fun a done => ∀ f, f ∈ a.fixes ↔
    ∃ i ∈ done, i.toStatement.fix? site probe = some f) h (by simp) fun a i b done ha hi => ?_
  · rw [hall]
    simp [statementsOf]
  · intro f
    have hforms : ∀ f ∈ a.fixes, site.formOf probe f.specifier = .lacks f.ending := by
      intro f hf
      obtain ⟨j, -, hj⟩ := (ha f).mp hf
      exact formOf_of_fix? hj
    rw [add_fixes hi, mem_checkForm_iff hforms, ha]
    simp [or_and_right, exists_or]

/-- The imports of the patched text are those of the source, with their specifiers completed. -/
theorem statementsOf_applyAll {source : Text} {survey : Survey}
    (h : ofSource site probe owner? pathsOnly source = .ok survey)
    (hplain : ∀ s ∈ statementsOf source, IsPlain s.specifier) :
    List.Forall₂ (·.Revised (fun _ => site.completed probe) ·) (statementsOf source)
      (statementsOf (Patch.applyAll survey.patches source)) := by
  have hforms : ∀ f ∈ survey.fixes, site.formOf probe f.specifier = .lacks f.ending := by
    intro f hf
    obtain ⟨s, -, hs⟩ := (ofSource_fixes h f).mp hf
    exact formOf_of_fix? hs
  have hproper : ∀ f ∈ survey.fixes, f.Proper := by
    intro f hf
    refine ⟨?_, Site.starts_of_lacks (hforms f hf)⟩
    obtain ⟨s, hs, hfix⟩ := (ofSource_fixes h f).mp hf
    rw [specifier_of_fix? hfix]
    exact hplain s hs
  refine forall₂_of_mem (PathFix.statementsOf_applyAll hproper hplain) fun s hs s' _ hrevised => ?_
  refine ⟨hrevised.keyword, hrevised.quote, ?_, hrevised.binding⟩
  rw [hrevised.specifier, Site.completed]
  split
  · next ending hform =>
    refine PathFix.completeAll_of_mem hforms ((ofSource_fixes h _).mpr ⟨s, hs, ?_⟩)
    rw [Statement.fix?, hform]
  · next hform => exact PathFix.completeAll_of_complete hforms hform

end Survey
end Namespacer
