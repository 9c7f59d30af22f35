import Namespacer.Proofs.Disk.Apart
import Namespacer.Proofs.Run.Attempt
import Namespacer.Proofs.Run.Naming

/-! What failures leave behind. A visit writes its file before it names modules and again when all
imports are collapsed, so one that fails in between leaves the completed specifiers and nothing of
the collapses. Other files are as the visits before left them, unless one of them is the file that
names are kept in. -/
namespace Namespacer

open Text

/-- Whether what failed was to read or to write a file that is visited. -/
def Failure.isAccess : Failure → Bool
  | .read _ _ => true
  | .write _ _ => true
  | _ => false

/-- Whether there is no place where both paths lead. -/
def Disk.Distinct (disk : Disk) (path path' : Text) : Prop :=
  ∀ place, disk.locate path true = .ok place → disk.locate path' true ≠ .ok place

instance (disk : Disk) (path path' : Text) : Decidable (disk.Distinct path path') :=
  decidable_of_iff (∀ place ∈ (disk.locate path true).toOption,
      (disk.locate path' true).toOption ≠ some place) <| by
    unfold Disk.Distinct
    cases disk.locate path true <;> cases disk.locate path' true <;> simp [Except.toOption]

namespace Run

/-- Whether a path is apart from the file that names are kept in, if they are kept in a file. -/
def Apart (r : Run) (path : Text) : Prop :=
  ∀ stored, r.names.store.path? = some stored → r.disk.Apart stored path

theorem apart_of_path?_eq_none {r : Run} (h : r.names.store.path? = none) (path : Text) :
    r.Apart path := by
  intro stored hstored
  rw [h] at hstored
  contradiction

/-- What becomes of a path while names are saved and some files are written. -/
structure Spares (path : Text) (written : List Text) (r r' : Run) : Prop where
  apart : r'.Apart path
  /-- No other path comes to lead there. -/
  distinct : ∀ other, r.disk.Distinct path other → r'.disk.Distinct path other
  read : (∀ file ∈ written, r.disk.Distinct path file) → r'.disk.read path = r.disk.read path

namespace Spares

variable {r r' r'' : Run} {path : Text} {written written' : List Text}

theorem of_eq (hapart : r.Apart path) (hdisk : r'.disk = r.disk) (hnames : r'.names = r.names) :
    Spares path written r r' where
  apart := by rwa [Apart, hdisk, hnames]
  distinct other h := by rwa [hdisk]
  read _ := by rw [hdisk]

theorem trans (h : Spares path written r r') (h' : Spares path written r' r'') :
    Spares path written r r'' where
  apart := h'.apart
  distinct other hother := h'.distinct other (h.distinct other hother)
  read hwritten :=
    (h'.read fun file hfile => h.distinct file (hwritten file hfile)).trans (h.read hwritten)

/-- What holds if some files are written holds all the more if these are only among them. -/
theorem mono (h : Spares path written r r') (hsub : written ⊆ written') :
    Spares path written' r r' where
  apart := h.apart
  distinct := h.distinct
  read hwritten := h.read fun file hfile => hwritten file (hsub hfile)

theorem trans_nil (h : Spares path written r r') (h' : Spares path [] r' r'') :
    Spares path written r r'' :=
  h.trans (h'.mono (List.nil_subset _))

end Spares

theorem assign_spares {r r' : Run} {path : Text} {key : ModulePath} {name : Text}
    {result : Except Failure Unit} (h : r.assign key name = (result, r')) (hapart : r.Apart path) :
    Spares path [] r r' := by
  obtain ⟨hpath, hdisk⟩ : r'.names.store.path? = r.names.store.path? ∧
      (r'.disk = r.disk ∨ ∃ stored t, r.names.store.path? = some stored ∧
        r.disk.moveInto stored t = .ok r'.disk) := by
    obtain ⟨_, _, _, hassign, rfl⟩ := assign_eq h
    exact NameMap.assign_disk hassign
  rcases hdisk with hsame | ⟨stored, t, hstored, hmoved⟩
  · refine ⟨fun stored hstored => ?_, fun other hother => ?_, fun _ => by rw [hsame]⟩
    · rw [hsame]
      exact hapart stored (hpath ▸ hstored)
    · rwa [hsame]
  · have hkept := hapart stored hstored
    obtain ⟨hplace, hlocate⟩ := hkept t _ hmoved
    refine ⟨fun stored' hstored' => ?_, fun other hother names hnames hnames' => ?_,
      fun _ => hkept.read_of_moveInto hmoved⟩
    · rw [hpath, hstored, Option.some.injEq] at hstored'
      exact hstored' ▸ hkept.of_moveInto hmoved
    · rw [hlocate] at hnames
      rcases Disk.locate_of_moveInto hmoved hnames' with hold | hnew
      · exact hother names hnames hold
      · rw [hnew, hnames] at hplace
        exact hplace rfl

theorem nameFor_spares {r r' : Run} {path : Text} {module : ModulePath} {d : Destructuring}
    {result : Except Failure Text} (h : r.nameFor module d = (result, r'))
    (hapart : r.Apart path) : Spares path [] r r' := by
  rcases nameFor_state h with rfl | ⟨-, question, rfl | ⟨name, given, -, hassign⟩⟩
  · exact .of_eq hapart rfl rfl
  · exact .of_eq hapart rfl rfl
  · have hasked : Spares path [] r (r.ask question).2 := .of_eq hapart rfl rfl
    exact hasked.trans (assign_spares hassign hasked.apart)

theorem collapseAll_spares {r r' : Run} {path site t : Text}
    {destructured : List (ModulePath × Destructuring)}
    {result : Except Failure (List (ModulePath × Text) × Text)}
    (h : r.collapseAll site destructured t = (result, r')) (hapart : r.Apart path) :
    Spares path [] r r' :=
  collapseAll_steps (fun r r' => r.Apart path → Spares path [] r r') (fun _ h => .of_eq h rfl rfl)
    (fun h h' hapart => (h hapart).trans (h' (h hapart).apart))
    (fun _ _ _ _ h => .of_eq h rfl rfl) (fun _ _ _ _ _ hnamed => nameFor_spares hnamed) h hapart

theorem writeText_spares {r r' : Run} {path : Text} {needed : Bool} {file t : Text}
    (h : r.writeText needed file t = .ok r') (hapart : r.Apart path) :
    Spares path [file] r r' := by
  rcases writeText_eq_ok h with ⟨-, rfl⟩ | ⟨-, disk, hwrite, rfl⟩
  · exact .of_eq hapart rfl rfl
  · have houtline := Disk.write_sameOutline hwrite
    have hlocate := fun other => Disk.locate_eq houtline other true
    refine ⟨fun stored hstored => (hapart stored hstored).of_sameOutline houtline,
      fun other hother => ?_, fun hne => Disk.read_of_write_ne hwrite ?_⟩
    · simpa only [Disk.Distinct, hlocate] using hother
    · obtain ⟨names, -, hnames, -⟩ := Disk.write_eq_ok hwrite
      rw [hnames]
      exact fun hsame => hne file (List.mem_singleton_self _) names hsame hnames

theorem visitFile_spares {r r' : Run} {path root file : Text} {result : Except Failure Visit}
    (h : r.visitFile root file = (result, r')) (hapart : r.Apart path) :
    Spares path [file] r r' := by
  have hpatch {source : Text} {survey : Survey} {patched : Run}
      (hpatched : (r.surveyed (PathText.relativeTo root file) source survey).writeText
        (survey.patched source ≠ source) file (survey.patched source) = .ok patched) :
      Spares path [file] r (patched.remember survey.plain) := by
    have hsurveyed :
        Spares path [file] r (r.surveyed (PathText.relativeTo root file) source survey) :=
      .of_eq hapart rfl rfl
    have hwrote := hsurveyed.trans (writeText_spares hpatched hsurveyed.apart)
    exact hwrote.trans (.of_eq hwrote.apart rfl rfl)
  cases visitFile_ends h with
  | unread => exact .of_eq hapart rfl rfl
  | unsurveyed => exact .of_eq hapart rfl rfl
  | unpatched => exact .of_eq hapart rfl rfl
  | uncollapsed _ _ hpatched hcollapsed =>
    have hbefore := hpatch hpatched
    exact hbefore.trans_nil (collapseAll_spares hcollapsed hbefore.apart)
  | unwritten _ _ hpatched hcollapsed =>
    have hbefore := hpatch hpatched
    exact hbefore.trans_nil (collapseAll_spares hcollapsed hbefore.apart)
  | done _ _ hpatched hcollapsed hwritten =>
    have hbefore := hpatch hpatched
    have hlast := hbefore.trans_nil (collapseAll_spares hcollapsed hbefore.apart)
    have hwrote := hlast.trans (writeText_spares hwritten hlast.apart)
    exact hwrote.trans (.of_eq hwrote.apart rfl rfl)

theorem isAccess_of_readText {r : Run} {file : Text} {e : Failure}
    (h : r.readText file = .error e) : e.isAccess = true := by
  obtain ⟨_, rfl⟩ := readText_eq_error h
  rfl

theorem isAccess_of_writeText {r : Run} {needed : Bool} {file t : Text} {e : Failure}
    (h : r.writeText needed file t = .error e) : e.isAccess = true := by
  obtain ⟨_, rfl⟩ := writeText_eq_error h
  rfl

/-- What a visit that fails leaves in its file, if the file can be read and written. -/
theorem visitFile_error {r r' : Run} {root file : Text} {e : Failure}
    (h : r.visitFile root file = (.error e, r')) (haccess : e.isAccess = false) :
    ∃ source, r.readText file = .ok source ∧
      ((∃ f, r.survey root file source = .error f ∧ r' = r) ∨
        ∃ survey, r.survey root file source = .ok survey ∧
          (r.Apart file → r'.readText file = .ok (survey.patched source))) := by
  cases visitFile_ends h with
  | unread hsource => simp [isAccess_of_readText hsource] at haccess
  | unsurveyed hsource hsurvey => exact ⟨_, hsource, .inl ⟨_, hsurvey, rfl⟩⟩
  | unpatched _ _ hpatched => simp [isAccess_of_writeText hpatched] at haccess
  | @uncollapsed source survey patched _ _ hsource hsurvey hpatched hcollapsed =>
    refine ⟨source, hsource, .inr ⟨survey, hsurvey, fun hapart => ?_⟩⟩
    have hsurveyed :
        Spares file [file] r (r.surveyed (PathText.relativeTo root file) source survey) :=
      .of_eq hapart rfl rfl
    have hpatch := writeText_spares hpatched hsurveyed.apart
    have hread : patched.readText file = .ok (survey.patched source) :=
      readText_of_writeText_ne hpatched hsource
    have hremembered : Spares file [] patched (patched.remember survey.plain) :=
      .of_eq hpatch.apart rfl rfl
    have hsame := hremembered.trans (collapseAll_spares hcollapsed hremembered.apart)
    rwa [readText, hsame.read (by simp), ← readText]
  | unwritten _ _ _ _ hwritten => simp [isAccess_of_writeText hwritten] at haccess

theorem Attempt.spares {r : Run} {a : Attempt} {path : Text} (h : Idle r a.before)
    (hapart : r.Apart path) : Spares path [a.file] r a.after := by
  have hbefore : Spares path [a.file] r a.before := .of_eq hapart h.1 h.2
  exact hbefore.trans (visitFile_spares a.visitFile_eq hbefore.apart)

namespace Attempts

variable {r r' : Run} {attempts : List Attempt}

theorem spares {path : Text} (h : Attempts Idle r attempts r') (hapart : r.Apart path) :
    Spares path (attempts.map Attempt.file) r r' := by
  induction h with
  | nil h => exact .of_eq hapart h.1 h.2
  | cons h _ ih =>
    have hvisit := Attempt.spares h hapart
    exact (hvisit.mono (by simp)).trans ((ih hvisit.apart).mono (by simp))

/-- What is apart at first is so when a visit begins, and the later visits go on from there. -/
theorem of_append_cons {earlier later : List Attempt} {a : Attempt} {path : Text}
    (h : Attempts Idle r (earlier ++ a :: later) r') (hapart : r.Apart path) :
    a.before.Apart path ∧ Attempts Idle a.after later r' := by
  obtain ⟨s, hearlier, hrest⟩ := h.of_append
  cases hrest with
  | cons hidle hlast =>
    have hbefore : Spares path [] s a.before :=
      .of_eq (hearlier.spares hapart).apart hidle.1 hidle.2
    exact ⟨hbefore.apart, hlast⟩

/-- A path reads as before as long as no visited file lies there. -/
theorem read {path : Text} (h : Attempts Idle r attempts r') (hapart : r.Apart path)
    (hdistinct : ∀ a ∈ attempts, a.before.disk.Distinct path a.file) :
    r'.disk.read path = r.disk.read path := by
  induction h with
  | nil h => rw [h.1]
  | @cons r _ a _ h _ ih =>
    obtain ⟨hfirst, hlater⟩ := List.forall_mem_cons.mp hdistinct
    have hvisit := Attempt.spares h hapart
    rw [h.1] at hfirst
    rw [ih hvisit.apart hlater, hvisit.read (by simpa using hfirst)]

/-- Each file reads as the visit there left it, if all are apart from the one that names are kept in
and from one another. -/
theorem read_after (h : Attempts Idle r attempts r') (hapart : ∀ a ∈ attempts, r.Apart a.file)
    (hdistinct : attempts.Pairwise fun a b => r.disk.Distinct a.file b.file) :
    ∀ a ∈ attempts, r'.disk.read a.file = a.after.disk.read a.file := by
  induction h with
  | nil => simp
  | @cons r r' a attempts h hrest ih =>
    obtain ⟨hfirst, hlater⟩ := List.forall_mem_cons.mp hapart
    obtain ⟨hothers, hpairs⟩ := List.pairwise_cons.mp hdistinct
    refine List.forall_mem_cons.mpr ⟨(hrest.spares (Attempt.spares h hfirst).apart).read ?_,
      ih (fun b hb => (Attempt.spares h (hlater b hb)).apart) ?_⟩
    · rw [List.forall_mem_map]
      exact fun b hb => (Attempt.spares h hfirst).distinct b.file (hothers b hb)
    · exact hpairs.imp_of_mem fun {b c} hb _ hne =>
        (Attempt.spares h (hlater b hb)).distinct c.file hne

end Attempts

/-- A visit that fails leaves its file as it was if the file cannot be surveyed, and else with the
specifiers completed and nothing collapsed. No other file changes. In a run that fails, the files
that it did not come to are as they were, and each that it did come to is as it was after the last
visit there. All this is about files that can be read and written and are apart from the one that
names are kept in. -/
theorem texts_of_error {r r' : Run} {e : Failure} (haccess : e.isAccess = false) :
    (∀ root file, r.visitFile root file = (.error e, r') →
      ∃ source, r.readText file = .ok source ∧
        (∀ f, r.survey root file source = .error f → r'.readText file = .ok source) ∧
        (∀ survey, r.survey root file source = .ok survey → r.Apart file →
          r'.readText file = .ok (survey.patched source)) ∧
        ∀ path, r.Apart path → r.disk.Distinct path file → r'.disk.read path = r.disk.read path) ∧
    ∀ roots, r.visitRoots roots = (.error e, r') →
      ((∀ a ∈ r.attempts roots, a.Succeeds) ∨
        ∃ done a, r.attempts roots = done ++ [a] ∧ (∀ b ∈ done, b.Succeeds) ∧
          a.before.visitFile a.root a.file = (.error e, r')) ∧
      (∀ path, r.Apart path → (∀ a ∈ r.attempts roots, a.before.disk.Distinct path a.file) →
        r'.disk.read path = r.disk.read path) ∧
      ∀ earlier a later, r.attempts roots = earlier ++ a :: later → r.Apart a.file →
        (∀ b ∈ later, b.before.disk.Distinct a.file b.file) →
        r'.readText a.file = a.after.readText a.file := by
  refine ⟨fun root file h => ?_, fun roots h => ⟨attempts_error h,
    fun path => (attempts_run h).read, fun earlier a later hsplit hapart hlater => ?_⟩⟩
  · have hothers (path : Text) (hapart : r.Apart path) (hdistinct : r.disk.Distinct path file) :
        r'.disk.read path = r.disk.read path :=
      (visitFile_spares h hapart).read (by simpa using hdistinct)
    obtain ⟨source, hsource, ⟨f, hsurvey, rfl⟩ | ⟨survey, hsurvey, htext⟩⟩ :=
      visitFile_error h haccess
    · refine ⟨source, hsource, fun _ _ => hsource, fun survey hsurvey' => ?_, hothers⟩
      rw [hsurvey] at hsurvey'
      cases hsurvey'
    · refine ⟨source, hsource, fun f hsurvey' => ?_, fun survey' hsurvey' => ?_, hothers⟩
      · rw [hsurvey] at hsurvey'
        cases hsurvey'
      · rw [hsurvey] at hsurvey'
        cases hsurvey'
        exact htext
  · have hrun := attempts_run h
    rw [hsplit] at hrun
    obtain ⟨hbefore, hlast⟩ := hrun.of_append_cons hapart
    have hafter := (visitFile_spares a.visitFile_eq hbefore).apart
    rw [readText, hlast.read hafter hlater, ← readText]

/-! Runs over a few files, with the names kept in a file. -/

def overFiles (files : List (String × String)) (names : String) : Run :=
  { disk := ⟨files.map fun e => (e.1.toList, .file (.text e.2.toList)), []⟩
    names := ⟨.empty, .empty, .file names.toList⟩
    respondent := .accepting
    options := {} }

theorem exists_error_of_not_isAccess {α : Type} {x : Except Failure α × Run}
    (h : (x.1.mapError Failure.isAccess).map (fun _ => ()) = .error false) :
    ∃ e, x = (.error e, x.2) ∧ e.isAccess = false := by
  obtain ⟨result, r⟩ := x
  cases result with
  | error e => exact ⟨e, rfl, Except.error.inj h⟩
  | ok a => contradiction

/-- The names are kept in a source file, the last one. The run fails in the first one, and yet the
last one changes. -/
theorem texts_of_error_names_among_sources :
    let r := overFiles
      [("a.js", "let { x } = require('./m.js');\nlet { y } = require('./n.js');\nlet N = 1;\n"),
        ("m.js", ""), ("n.js", ""), ("names.js", "\x7b\x7d")] "names.js"
    ∃ e r', r.visitRoots [['.']] = (.error e, r') ∧ e.isAccess = false ∧
      (r.listing? ['.']).map Prod.snd =
        some ["/a.js".toList, "/m.js".toList, "/n.js".toList, "/names.js".toList] ∧
      (r.attempts [['.']]).map Attempt.file = ["/a.js".toList] ∧
      r.readText "/names.js".toList = .ok "\x7b\x7d".toList ∧
      r'.readText "/names.js".toList = .ok
        "\x7b\n  \"./m.js\": \"M\",\n  \"./n.js\": \"N\"\n\x7d\n".toList := by
  intro r
  let run := r.visitRoots [['.']]
  have hfails : (run.1.mapError Failure.isAccess).map (fun _ => ()) = .error false := by
    decide +kernel
  obtain ⟨e, he, haccess⟩ := exists_error_of_not_isAccess hfails
  exact ⟨e, run.2, he, haccess, by decide +kernel⟩

/-- Whether a visit has specifiers to complete, if its file can be surveyed. -/
def Attempt.completes? (a : Attempt) : Option Bool :=
  (a.before.readText a.file).toOption.bind fun source =>
    (a.before.survey a.root a.file source).toOption.map fun found => found.patched source ≠ source

/-- The first file keeps the names that the run brought there, the second one its completed
specifier and nothing else, and the third one is as it was. -/
theorem texts_of_error_three_files :
    let r := overFiles [("a.js", "let { x } = require('./m.js');\n"),
      ("b.js", "let { y } = require('./n');\nlet N = 1;\n"),
      ("c.js", "let { z } = require('./m.js');\n"), ("m.js", ""), ("n.js", "")] "names.json"
    ∃ e r', r.visitRoots [['.']] = (.error e, r') ∧
      r'.readText "/a.js".toList = .ok "let M = require('./m.js');\n".toList ∧
      r'.readText "/b.js".toList = .ok "let { y } = require('./n.js');\nlet N = 1;\n".toList ∧
      r'.readText "/c.js".toList = .ok "let { z } = require('./m.js');\n".toList ∧
      r'.names.name? ⟨"./n.js".toList⟩ = some ['N'] ∧
      ∃ a ∈ r.attempts [['.']], a.before.visitFile a.root a.file = (.error e, r') ∧
        ∃ source survey, a.before.readText a.file = .ok source ∧
          a.before.survey a.root a.file source = .ok survey ∧ survey.patched source ≠ source ∧
          r'.readText a.file = .ok (survey.patched source) ∧
          r'.disk.read "/a.js".toList = a.before.disk.read "/a.js".toList := by
  intro r
  let run := r.visitRoots [['.']]
  obtain ⟨hfails, hattempts, hdistinct, huntouched, hname⟩ :
      (run.1.mapError Failure.isAccess).map (fun _ => ()) = .error false ∧
      (r.attempts [['.']]).map (fun a => (a.file, (a.after.readText a.file).toOption,
          a.result.toOption.isSome, a.completes?)) =
        [("/a.js".toList, some "let M = require('./m.js');\n".toList, true, some false),
          ("/b.js".toList, some "let { y } = require('./n.js');\nlet N = 1;\n".toList, false,
            some true)] ∧
      (∀ b ∈ (r.attempts [['.']]).tail, b.before.disk.Distinct "/a.js".toList b.file) ∧
      (∀ a ∈ r.attempts [['.']], a.before.disk.Distinct "/c.js".toList a.file) ∧
      run.2.names.name? ⟨"./n.js".toList⟩ = some ['N'] := by decide +kernel
  obtain ⟨e, he, haccess⟩ := exists_error_of_not_isAccess hfails
  have hapart (path : Text)
      (hplace : r.disk.landing? "names.json".toList ≠ (r.disk.locate path true).toOption)
      (hlocate : ∀ t, (r.disk.placeAt ["names.json".toList] (.file (.text t))).locate path true =
        r.disk.locate path true) : r.Apart path := by
    rintro _ ⟨⟩ t disk' hmoved
    have hdisk : r.disk.moveInto "names.json".toList t =
        .ok (r.disk.placeAt ["names.json".toList] (.file (.text t))) := rfl
    cases hdisk.symm.trans hmoved
    exact ⟨hplace, hlocate t⟩
  have hapartA : r.Apart "/a.js".toList := hapart _ (by decide +kernel) fun _ => rfl
  have hapartB : r.Apart "/b.js".toList := hapart _ (by decide +kernel) fun _ => rfl
  have hapartC : r.Apart "/c.js".toList := hapart _ (by decide +kernel) fun _ => rfl
  obtain ⟨first, rest, hsplit, hfirst, hrest⟩ := List.map_eq_cons_iff.mp hattempts
  obtain ⟨second, none, rfl, hsecond, hnone⟩ := List.map_eq_cons_iff.mp hrest
  obtain rfl := List.map_eq_nil_iff.mp hnone
  simp only [Prod.mk.injEq] at hfirst hsecond
  obtain ⟨hfirstFile, hfirstText, -, -⟩ := hfirst
  obtain ⟨hsecondFile, hsecondText, hsecondFails, hpatch⟩ := hsecond
  rw [hsplit] at hdistinct
  obtain ⟨hend, hothers, hvisited⟩ := (texts_of_error haccess).2 _ he
  refine ⟨e, run.2, he, ?_, ?_, ?_, hname, ?_⟩
  · have hkept := hvisited [] first [second] hsplit (hfirstFile ▸ hapartA) (hfirstFile ▸ hdistinct)
    rw [← hfirstFile, hkept, eq_ok_of_toOption hfirstText]
  · have hkept := hvisited [first] second [] hsplit (hsecondFile ▸ hapartB) (by simp)
    rw [← hsecondFile, hkept, eq_ok_of_toOption hsecondText]
  · have hsame := hothers "/c.js".toList hapartC huntouched
    exact readText_eq_ok_iff.mpr (hsame.trans (by decide +kernel))
  · have hmem : second ∈ r.attempts [['.']] := by simp [hsplit]
    have hlast : second.before.visitFile second.root second.file = (.error e, run.2) := by
      rcases hend with hall | ⟨done, a, hdone, -, hfailing⟩
      · obtain ⟨visit, hvisit⟩ := hall second hmem
        rw [hvisit] at hsecondFails
        cases hsecondFails
      · have heq := congrArg List.getLast? (hsplit.symm.trans hdone)
        rw [List.getLast?_concat] at heq
        cases heq
        exact hfailing
    have hbefore {path : Text} (h : r.Apart path) : second.before.Apart path :=
      ((hsplit ▸ attempts_run he : Attempts Idle r ([first] ++ [second]) _).of_append_cons h).1
    obtain ⟨source, hsource, hpatch⟩ := Option.bind_eq_some_iff.mp hpatch
    obtain ⟨found, hfound, hne⟩ := Option.map_eq_some_iff.mp hpatch
    have hread := eq_ok_of_toOption hsource
    have hsurvey := eq_ok_of_toOption hfound
    obtain ⟨source', hsource', -, htext, hsame⟩ := (texts_of_error haccess).1 _ _ hlast
    cases hread.symm.trans hsource'
    refine ⟨second, hmem, hlast, source, found, hread, hsurvey, of_decide_eq_true hne,
      htext found hsurvey (hbefore (hsecondFile ▸ hapartB)), hsame _ (hbefore hapartA) ?_⟩
    exact hdistinct second List.mem_cons_self

end Run
end Namespacer
