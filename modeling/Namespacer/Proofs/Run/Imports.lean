import Namespacer.Proofs.Run.Visit

/-! What a visit makes of the imports of a file, import by import. Imports are collapsed by
substitution all over the text, so braces and symbols of one import may also be found in another.
Whether they are decides what becomes of it. -/
namespace Namespacer

open Text

namespace Run

/-- A visit of a file that succeeds, with what it reads and finds there. -/
structure SuccessfulVisit (r : Run) (root file : Text) where
  visit : Visit
  after : Run
  source : Text
  survey : Survey
  succeeds : r.visitFile root file = (.ok visit, after)
  reads : r.readText file = .ok source
  surveys : r.survey root file source = .ok survey

namespace SuccessfulVisit

variable {r : Run} {root file : Text}

def patched (v : r.SuccessfulVisit root file) : Text := v.survey.patched v.source

def steps (v : r.SuccessfulVisit root file) : List Collapse :=
  v.after.collapses v.survey.destructured

theorem text (v : r.SuccessfulVisit root file) (hnames : r.names.Identifiers) :
    v.after.readText file = .ok (Collapse.appliedAll v.steps v.patched) ∧
      v.visit.renamed = v.survey.destructured.map (fun e => (e.1.key, v.after.nameOf e.1)) ∧
      Collapse.namesFresh v.steps v.patched = true ∧ ∀ c ∈ v.steps, c.Proper :=
  visitFile_text v.succeeds v.reads v.surveys hnames

theorem mem_renamed_iff (v : r.SuccessfulVisit root file) (hnames : r.names.Identifiers)
    {k : ModulePath} {d : Destructuring} (hfiled : (k, d) ∈ v.survey.destructured) (n : Text) :
    (k, n) ∈ v.visit.renamed ↔ n = v.after.nameOf k := by
  have hkeys := fun e he => (Survey.ofSource_destructured v.surveys e he).2
  rw [(v.text hnames).2.1, List.mem_map]
  constructor
  · rintro ⟨e, he, heq⟩
    rw [hkeys e he] at heq
    cases heq
    rfl
  · rintro rfl
    exact ⟨(k, d), hfiled, by rw [hkeys (k, d) hfiled]⟩

/-- Whether collapsing neither makes a statement of other text nor puts a name right before one. -/
def isClear (v : r.SuccessfulVisit root file) : Bool := Collapse.isClearAll v.steps v.patched

/-- Whether an import reads as one after every collapse. -/
def stays (v : r.SuccessfulVisit root file) (i : Import) : Bool :=
  Collapse.staysImport v.steps (i.textIn v.patched)

/-- The texts of the imports that stay, as the collapses leave them. -/
def left (v : r.SuccessfulVisit root file) : List Text :=
  ((importTexts v.patched).filter (Collapse.staysImport v.steps)).map (Collapse.withinAll v.steps)

/-- Where all imports up to some place stay, the one there is left alone exactly if no collapse
finds its braces or a bare symbol in it. If no statement stands inside another, the imports that do
not stay are gone and all others are found in order. -/
theorem unchanged_iff (v : r.SuccessfulVisit root file) (hnames : r.names.Identifiers)
    (hclear : v.isClear = true) :
    ∃ final, v.after.readText file = .ok final ∧
      (isFlat none v.patched = true → importTexts final = v.left) ∧
      ∀ (p : Nat) (i : Import), (importsOf v.patched)[p]? = some i →
        (∀ j ∈ (importsOf v.patched).take (p + 1), v.stays j = true) →
        ((importsOf final)[p]?.map Import.toStatement = some i.toStatement ↔
          ∀ e ∈ v.survey.destructured, e.2.LeavesAlone (i.textIn v.patched)) := by
  obtain ⟨hfinal, -, -, hproper⟩ := v.text hnames
  refine ⟨_, hfinal, Collapse.importTexts_appliedAll hproper hclear, fun p i hi hstays => ?_⟩
  have hwritten := written_textIn (List.mem_of_getElem? hi)
  rw [Collapse.getElem?_importsOf_appliedAll hproper hclear hi hstays]
  exact (Collapse.written_withinAll_iff hproper hwritten).trans
    (forall_mem_collapses v.after _ fun d => d.LeavesAlone (i.textIn v.patched))

/-! A file `a.js` that lies beside two empty modules. -/

def overFile (source : String) : Run :=
  { disk := ⟨[("a.js".toList, .file (.text source.toList)), ("m.js".toList, .file (.text [])),
      ("n.js".toList, .file (.text []))], []⟩
    names := ⟨.empty, .empty, .memory .empty 0⟩
    respondent := .accepting
    options := {} }

theorem identifiers_overFile (source : String) : (overFile source).names.Identifiers :=
  fun _ _ h => by contradiction

def ofFile (source : String) (visit : Visit) (survey : Survey)
    (hvisit : ((overFile source).visitFile ['.'] "a.js".toList).1.toOption = some visit)
    (hreads : ((overFile source).readText "a.js".toList).toOption = some source.toList)
    (hsurvey : ((overFile source).survey ['.'] "a.js".toList source.toList).toOption =
      some survey) :
    SuccessfulVisit (overFile source) ['.'] "a.js".toList where
  visit := visit
  after := ((overFile source).visitFile ['.'] "a.js".toList).2
  source := source.toList
  survey := survey
  succeeds := Prod.ext (eq_ok_of_toOption hvisit) rfl
  reads := eq_ok_of_toOption hreads
  surveys := eq_ok_of_toOption hsurvey

/-- The visit of a file that destructures one module twice. -/
def ofRedeclared : SuccessfulVisit
    (overFile "let { a } = require('./m.js');\nlet { a, b } = require('./m.js');\n") ['.']
    "a.js".toList :=
  let warnings := ({} : Warnings).push "./m.js".toList (.redeclaredList "let".toList
    ⟨"'./m.js'".toList, "{ a, b }".toList, [['a'], ['b']]⟩)
  ofFile _
    { path := "a.js".toList, warnings, fixes := [], renamed := [(⟨"./m.js".toList⟩, ['M'])],
      changed := true }
    { destructured := [(⟨"./m.js".toList⟩, ⟨"'./m.js'".toList, "{ a }".toList, [['a']]⟩)],
      warnings }
    (by decide +kernel) (by decide +kernel) (by decide +kernel)

/-- The second import is not the one that is collapsed, and yet it does not stay as it was. -/
theorem unchanged_iff_redeclared :
    ∃ final, ofRedeclared.after.readText "a.js".toList = .ok final ∧
      ∃ i, (importsOf ofRedeclared.patched)[1]? = some i ∧
        (importsOf final)[1]?.map Import.toStatement ≠ some i.toStatement := by
  obtain ⟨final, hfinal, -, hiff⟩ :=
    ofRedeclared.unchanged_iff (identifiers_overFile _) (by decide +kernel)
  have htext : (importsOf ofRedeclared.patched)[1]?.map (·.textIn ofRedeclared.patched) =
      some "let { a, b } = require('./m.js')".toList := by decide +kernel
  obtain ⟨i, hi, hw⟩ := Option.map_eq_some_iff.mp htext
  refine ⟨final, hfinal, i, hi, fun hsame => ?_⟩
  have halone := (hiff 1 i hi (by decide +kernel)).mp hsame _ List.mem_cons_self
  have hbare := halone.2 ['a'] List.mem_cons_self
  rw [hw] at hbare
  exact absurd hbare (by decide +kernel)

/-- An import whose braces are filed under a module comes to bind the name of that module, with
nothing else about it changed, exactly if the collapses before leave it alone, its own finds the
braces nowhere else in it and no bare symbol, and those after leave alone what has become of it. -/
theorem collapsed_iff (v : r.SuccessfulVisit root file) (hnames : r.names.Identifiers)
    (hclear : v.isClear = true) {earlier later : List (ModulePath × Destructuring)} {k : ModulePath}
    {d : Destructuring} (hfiled : v.survey.destructured = earlier ++ (k, d) :: later) :
    ∃ final name, v.after.readText file = .ok final ∧
      (∀ n, (k, n) ∈ v.visit.renamed ↔ n = name) ∧
      (isFlat none v.patched = true → importTexts final = v.left) ∧
      ∀ (p : Nat) (i : Import), (importsOf v.patched)[p]? = some i → i.binding.text = d.binding →
        (∀ j ∈ (importsOf v.patched).take (p + 1), v.stays j = true) →
        let w := i.textIn v.patched
        let w' := replaceAll d.binding name w
        ((importsOf final)[p]?.map Import.toStatement =
            some { i.toStatement with binding := .name name } ↔
          (∀ e ∈ earlier, e.2.LeavesAlone w) ∧ ¬ d.binding <:+: i.specifier ∧
            (∀ symbol ∈ d.symbols, usesBare symbol w' = false) ∧
            ∀ e ∈ later, e.2.LeavesAlone w') := by
  obtain ⟨hfinal, -, hfresh, hproper⟩ := v.text hnames
  have hsteps : v.steps =
      v.after.collapses earlier ++ ⟨d, v.after.nameOf k⟩ :: v.after.collapses later := by
    simp [steps, hfiled, collapses]
  have hfound : (k, d) ∈ v.survey.destructured := by simp [hfiled]
  refine ⟨_, v.after.nameOf k, hfinal, v.mem_renamed_iff hnames hfound,
    Collapse.importTexts_appliedAll hproper hclear, fun p i hi hbinding hstays => ?_⟩
  intro w w'
  rw [Collapse.getElem?_importsOf_appliedAll hproper hclear hi hstays]
  have hmem : i ∈ (importsOf v.patched).take (p + 1) :=
    List.mem_of_getElem? (List.getElem?_take_of_succ.trans hi)
  unfold isClear at hclear
  unfold stays at hstays
  rw [hsteps] at hproper hclear hfresh hstays ⊢
  have hown := Collapse.written_name_iff (hproper _ (by simp))
    (written_textIn (List.mem_of_getElem? hi)) hbinding hproper fun _ =>
      Collapse.binding_ne_name hproper hclear hfresh (importTexts_eq_append v.patched (p + 1))
        (List.forall_mem_map.mpr hstays) (List.mem_map_of_mem hmem)
  have hbefore := forall_mem_collapses v.after earlier fun e => e.LeavesAlone w
  have hafter := forall_mem_collapses v.after later fun e => e.LeavesAlone w'
  exact hown.trans (and_congr hbefore (and_congr Iff.rfl (and_congr Iff.rfl hafter)))

/-- The visit of a file that destructures two modules by the same braces. -/
def ofSameBraces : SuccessfulVisit
    (overFile "let { a } = require('./m.js');\nlet { a } = require('./n.js');\n") ['.']
    "a.js".toList :=
  ofFile _
    { path := "a.js".toList, warnings := {}, fixes := [], changed := true,
      renamed := [(⟨"./m.js".toList⟩, ['M']), (⟨"./n.js".toList⟩, ['N'])] }
    { destructured := [(⟨"./m.js".toList⟩, ⟨"'./m.js'".toList, "{ a }".toList, [['a']]⟩),
        (⟨"./n.js".toList⟩, ⟨"'./n.js'".toList, "{ a }".toList, [['a']]⟩)] }
    (by decide +kernel) (by decide +kernel) (by decide +kernel)

/-- The second module is named, and yet its import does not come to bind that name. -/
theorem collapsed_iff_same_braces :
    ∃ final name, ofSameBraces.after.readText "a.js".toList = .ok final ∧
      (⟨"./n.js".toList⟩, name) ∈ ofSameBraces.visit.renamed ∧
      ∃ i, (importsOf ofSameBraces.patched)[1]? = some i ∧
        (importsOf final)[1]?.map Import.toStatement ≠
          some { i.toStatement with binding := .name name } := by
  have hfiled : ofSameBraces.survey.destructured =
      [(⟨"./m.js".toList⟩, ⟨"'./m.js'".toList, "{ a }".toList, [['a']]⟩)] ++
        (⟨"./n.js".toList⟩, ⟨"'./n.js'".toList, "{ a }".toList, [['a']]⟩) :: [] := rfl
  obtain ⟨final, name, hfinal, hname, -, hiff⟩ :=
    ofSameBraces.collapsed_iff (identifiers_overFile _) (by decide +kernel) hfiled
  have htext : (importsOf ofSameBraces.patched)[1]?.map
      (fun i => (i.binding.text, i.textIn ofSameBraces.patched)) =
        some ("{ a }".toList, "let { a } = require('./n.js')".toList) := by decide +kernel
  obtain ⟨i, hi, hw⟩ := Option.map_eq_some_iff.mp htext
  obtain ⟨hbinding, hw⟩ := Prod.mk.inj hw
  refine ⟨final, name, hfinal, (hname name).mpr rfl, i, hi, fun hbinds => ?_⟩
  have halone := ((hiff 1 i hi hbinding (by decide +kernel)).mp hbinds).1 _ List.mem_cons_self
  rw [hw] at halone
  exact halone.1 ⟨"let ".toList, " = require('./n.js')".toList, by decide +kernel⟩

end SuccessfulVisit
end Run
end Namespacer
