import Namespacer.Proofs.Run.Course

/-! Visits of files in the order in which they are begun, with those that fail. -/
namespace Namespacer

open Text

namespace Run

/-- A visit of a file that is begun in some state. It may fail. -/
structure Attempt where
  before : Run
  root : Text
  file : Text

namespace Attempt

def result (a : Attempt) : Except Failure Visit := (a.before.visitFile a.root a.file).1

def after (a : Attempt) : Run := (a.before.visitFile a.root a.file).2

def Succeeds (a : Attempt) : Prop := ∃ visit, a.result = .ok visit

theorem visitFile_eq (a : Attempt) : a.before.visitFile a.root a.file = (a.result, a.after) := rfl

end Attempt

/-- A state leads to another by visits. What `between` admits may happen before and after each. -/
inductive Attempts (between : Run → Run → Prop) : Run → List Attempt → Run → Prop
  | nil {r r' : Run} (h : between r r') : Attempts between r [] r'
  | cons {r r' : Run} {a : Attempt} {attempts : List Attempt} (h : between r a.before)
      (hrest : Attempts between a.after attempts r') : Attempts between r (a :: attempts) r'

/-- The visits of files under a root, up to the first that fails. -/
def attemptsUnder (r : Run) (root : Text) : List Text → List Attempt
  | [] => []
  | file :: files =>
    ⟨r, root, file⟩ :: match r.visitFile root file with
      | (.error _, _) => []
      | (.ok _, r) => r.attemptsUnder root files

/-- The visits of a run, up to the first that fails. -/
def attempts (r : Run) : List Text → List Attempt
  | [] => []
  | root :: roots =>
    match r.listing? root with
    | none => []
    | some (root, files) =>
      (r.counted root files).attemptsUnder root files ++
        match (r.counted root files).visitFiles root files with
        | (.error _, _) => []
        | (.ok (), r) => r.attempts roots

/-- Two states of a run between which nothing happens, except that something may be printed. -/
def Prints (r r' : Run) : Prop := ∃ console, r' = { r with console }

theorem Prints.refl (r : Run) : Prints r r := ⟨r.console, rfl⟩

theorem Prints.trans {r r' r'' : Run} (h : Prints r r') (h' : Prints r' r'') : Prints r r'' := by
  obtain ⟨_, rfl⟩ := h
  obtain ⟨console, rfl⟩ := h'
  exact ⟨console, rfl⟩

/-- Two states of a run between which nothing happens to files and names. -/
def Idle (r r' : Run) : Prop := r'.disk = r.disk ∧ r'.names = r.names

theorem Idle.refl (r : Run) : Idle r r := ⟨rfl, rfl⟩

theorem Prints.idle {r r' : Run} (h : Prints r r') : Idle r r' := by
  obtain ⟨_, rfl⟩ := h
  exact ⟨rfl, rfl⟩

namespace Attempts

variable {r r' r'' : Run} {attempts later : List Attempt}

theorem mono {between between' : Run → Run → Prop}
    (hmono : ∀ {r r' : Run}, between r r' → between' r r')
    (h : Attempts between r attempts r') : Attempts between' r attempts r' := by
  induction h with
  | nil h => exact .nil (hmono h)
  | cons h _ ih => exact .cons (hmono h) ih

theorem after_prints (h : Prints r r') (hrest : Attempts Prints r' attempts r'') :
    Attempts Prints r attempts r'' := by
  cases hrest with
  | nil h' => exact .nil (h.trans h')
  | cons h' hrest => exact .cons (h.trans h') hrest

theorem append (h : Attempts Prints r attempts r') (h' : Attempts Prints r' later r'') :
    Attempts Prints r (attempts ++ later) r'' := by
  induction h with
  | nil h => exact h'.after_prints h
  | cons h _ ih => exact .cons h (ih h')

theorem of_append (h : Attempts Idle r (attempts ++ later) r') :
    ∃ s, Attempts Idle r attempts s ∧ Attempts Idle s later r' := by
  induction attempts generalizing r with
  | nil => exact ⟨r, .nil (.refl r), h⟩
  | cons a attempts ih =>
    cases h with
    | cons h hrest =>
      obtain ⟨s, hs, hlater⟩ := ih hrest
      exact ⟨s, .cons h hs, hlater⟩

end Attempts

theorem attemptsUnder_run {r r' : Run} {root : Text} {files : List Text}
    {result : Except Failure Unit} (h : r.visitFiles root files = (result, r')) :
    Attempts Prints r (r.attemptsUnder root files) r' := by
  induction files generalizing r with
  | nil =>
    cases h
    exact .nil (.refl _)
  | cons file files ih =>
    refine .cons (.refl r) ?_
    unfold Attempt.after
    dsimp only
    rw [visitFiles] at h
    rcases hvisit : r.visitFile root file with ⟨e | visit, next⟩
    · rw [hvisit] at h
      cases h
      exact .nil (.refl _)
    · rw [hvisit] at h
      exact ih h

theorem attemptsUnder_ok {r r' : Run} {root : Text} {files : List Text}
    (h : r.visitFiles root files = (.ok (), r')) :
    ∀ a ∈ r.attemptsUnder root files, a.Succeeds := by
  induction files generalizing r with
  | nil => simp [attemptsUnder]
  | cons file files ih =>
    obtain ⟨visit, hvisit, hrest⟩ := visitFiles_cons h
    rw [attemptsUnder, hvisit]
    exact List.forall_mem_cons.mpr ⟨⟨visit, congrArg Prod.fst hvisit⟩, ih hrest⟩

theorem attemptsUnder_error {r r' : Run} {root : Text} {files : List Text} {e : Failure}
    (h : r.visitFiles root files = (.error e, r')) :
    ∃ done a, r.attemptsUnder root files = done ++ [a] ∧ (∀ b ∈ done, b.Succeeds) ∧
      a.before.visitFile a.root a.file = (.error e, r') := by
  induction files generalizing r with
  | nil => cases h
  | cons file files ih =>
    rw [visitFiles] at h
    rw [attemptsUnder]
    rcases hvisit : r.visitFile root file with ⟨e' | visit, next⟩
    · rw [hvisit] at h
      cases h
      exact ⟨[], ⟨r, root, file⟩, rfl, by simp, hvisit⟩
    · rw [hvisit] at h
      obtain ⟨done, a, hdone, hsucceeds, hfails⟩ := ih h
      refine ⟨⟨r, root, file⟩ :: done, a, congrArg (_ :: ·) hdone, ?_, hfails⟩
      exact List.forall_mem_cons.mpr ⟨⟨visit, congrArg Prod.fst hvisit⟩, hsucceeds⟩

theorem counted_prints (r : Run) (root : Text) (files : List Text) :
    Prints r (r.counted root files) := ⟨_, rfl⟩

/-- A run consists of its visits, with nothing but messages in between. -/
theorem attempts_prints {r r' : Run} {roots : List Text} {result : Except Failure Totals}
    (h : r.visitRoots roots = (result, r')) : Attempts Prints r (r.attempts roots) r' := by
  induction roots generalizing r with
  | nil =>
    cases h
    exact .nil (.refl _)
  | cons root roots ih =>
    rw [visitRoots] at h
    rw [attempts]
    cases hlisting : r.listing? root with
    | none =>
      obtain ⟨e, hroot⟩ := visitRoot_of_listing?_none hlisting
      rw [hroot] at h
      cases h
      exact .nil (.refl _)
    | some found =>
      obtain ⟨root', files⟩ := found
      rw [visitRoot_of_listing? hlisting] at h
      dsimp only
      refine .after_prints (r.counted_prints root' files) ?_
      rcases hfiles : (r.counted root' files).visitFiles root' files with ⟨e | _, next⟩
      · rw [hfiles] at h
        cases h
        exact (attemptsUnder_run hfiles).append (.nil (.refl _))
      · rw [hfiles] at h
        exact (attemptsUnder_run hfiles).append (ih h)

theorem attempts_run {r r' : Run} {roots : List Text} {result : Except Failure Totals}
    (h : r.visitRoots roots = (result, r')) : Attempts Idle r (r.attempts roots) r' :=
  (attempts_prints h).mono Prints.idle

/-- All visits of a run that succeeds do so. -/
theorem attempts_ok {r r' : Run} {roots : List Text} {totals : Totals}
    (h : r.visitRoots roots = (.ok totals, r')) : ∀ a ∈ r.attempts roots, a.Succeeds := by
  induction roots generalizing r with
  | nil => simp [attempts]
  | cons root roots ih =>
    rw [visitRoots] at h
    rw [attempts]
    cases hlisting : r.listing? root with
    | none => simp
    | some found =>
      obtain ⟨root', files⟩ := found
      rw [visitRoot_of_listing? hlisting] at h
      dsimp only
      rcases hfiles : (r.counted root' files).visitFiles root' files with ⟨e | _, next⟩
      · rw [hfiles] at h
        cases h
      · rw [hfiles] at h
        exact List.forall_mem_append.mpr ⟨attemptsUnder_ok hfiles, ih h⟩

theorem Prints.precedes {r r' : Run} (h : Prints r r') : r.Precedes r' := by
  obtain ⟨_, rfl⟩ := h
  exact .of_eq rfl rfl rfl

/-- Visits that succeed follow one another in the course of a run. -/
theorem Attempts.precedes {r r' : Run} {attempts : List Attempt}
    (h : Attempts Prints r attempts r') (hok : ∀ a ∈ attempts, a.Succeeds) :
    r.Precedes r' ∧ ∀ a ∈ attempts, r.Precedes a.before ∧ a.after.Precedes r' := by
  induction h with
  | nil h => exact ⟨h.precedes, by simp⟩
  | @cons r r' a attempts h _ ih =>
    obtain ⟨⟨visit, hvisit⟩, hok⟩ := List.forall_mem_cons.mp hok
    obtain ⟨hrest, hall⟩ := ih hok
    have hsucceeds := a.visitFile_eq
    rw [hvisit] at hsucceeds
    have hafter := h.precedes.trans (visitFile_precedes hsucceeds)
    exact ⟨hafter.trans hrest, List.forall_mem_cons.mpr ⟨⟨h.precedes, hrest⟩,
      fun b hb => ⟨hafter.trans (hall b hb).1, (hall b hb).2⟩⟩⟩

theorem exists_attemptUnder {r last : Run} {root : Text} {files : List Text}
    (h : r.visitFiles root files = (.ok (), last)) {v : Visited}
    (hv : v ∈ r.visitedFiles root files) :
    ∃ a ∈ r.attemptsUnder root files, a.before.visited? a.root a.file = some v := by
  induction files generalizing r with
  | nil => simp [visitedFiles] at hv
  | cons file files ih =>
    obtain ⟨visit, hvisit, hrest⟩ := visitFiles_cons h
    rw [visitedFiles] at hv
    rw [attemptsUnder, hvisit]
    rcases List.mem_append.mp hv with hv | hv
    · exact ⟨⟨r, root, file⟩, List.mem_cons_self, Option.mem_toList.mp hv⟩
    · obtain ⟨a, ha, hvisited⟩ := ih hrest hv
      exact ⟨a, List.mem_cons_of_mem _ ha, hvisited⟩

/-- Where a run succeeds, what it finds in a file it finds in one of its visits. -/
theorem exists_attempt {r last : Run} {roots : List Text} {totals : Totals}
    (h : r.visitRoots roots = (.ok totals, last)) {v : Visited} (hv : v ∈ r.visited roots) :
    ∃ a ∈ r.attempts roots, a.before.visited? a.root a.file = some v := by
  induction roots generalizing r with
  | nil => simp [visited] at hv
  | cons root roots ih =>
    obtain ⟨root', files, next, hlisting, hnext, hrest, hvisited⟩ := visitRoots_cons h
    rw [hvisited] at hv
    rw [attempts, hlisting]
    dsimp only
    rw [hnext]
    rcases List.mem_append.mp hv with hv | hv
    · obtain ⟨a, ha, hfound⟩ := exists_attemptUnder hnext hv
      exact ⟨a, List.mem_append_left _ ha, hfound⟩
    · obtain ⟨a, ha, hfound⟩ := ih hrest hv
      exact ⟨a, List.mem_append_right _ ha, hfound⟩

/-- A run fails in its last visit, or because a root cannot be looked through. -/
theorem attempts_error {r r' : Run} {roots : List Text} {e : Failure}
    (h : r.visitRoots roots = (.error e, r')) :
    (∀ a ∈ r.attempts roots, a.Succeeds) ∨
      ∃ done a, r.attempts roots = done ++ [a] ∧ (∀ b ∈ done, b.Succeeds) ∧
        a.before.visitFile a.root a.file = (.error e, r') := by
  induction roots generalizing r with
  | nil => cases h
  | cons root roots ih =>
    rw [visitRoots] at h
    rw [attempts]
    cases hlisting : r.listing? root with
    | none => exact .inl (by simp)
    | some found =>
      obtain ⟨root', files⟩ := found
      rw [visitRoot_of_listing? hlisting] at h
      dsimp only
      rcases hfiles : (r.counted root' files).visitFiles root' files with ⟨e' | _, next⟩
      · rw [hfiles] at h
        cases h
        dsimp only
        rw [List.append_nil]
        exact .inr (attemptsUnder_error hfiles)
      · rw [hfiles] at h
        have hfirst := attemptsUnder_ok hfiles
        rcases ih h with hall | ⟨done, a, hlast, hsucceeds, hfails⟩
        · exact .inl (List.forall_mem_append.mpr ⟨hfirst, hall⟩)
        · refine .inr ⟨_ ++ done, a, ?_, List.forall_mem_append.mpr ⟨hfirst, hsucceeds⟩, hfails⟩
          rw [List.append_assoc]
          exact congrArg _ hlast

end Run
end Namespacer
