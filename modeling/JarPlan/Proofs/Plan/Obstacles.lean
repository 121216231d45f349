import JarPlan.Proofs.Kapt.Options
import JarPlan.Proofs.OptionToken.Lengths
import JarPlan.Proofs.Plan.Order
import JarPlan.Proofs.Sorted.Set
/-!
# What stands in the way of a plan

Only annotation processing in the Kotlin compiler can keep a draft from being made: it takes two jars, reads
parameters and writes options into tokens with fields of fixed size. What can go wrong is looked at in one
order, and the draft fails with the first that does. All this comes before the Java pass, so its planner is
asked for no unit that has no draft, once for any other, and answers for its own errors.
-/

namespace JarPlan

namespace Draft

/-! ### Obstacles -/

section Obstacles
variable (ws : Workspace) (unit : SourceUnit) (toolchain : Toolchain)

/-- The options that the processors of a unit get. -/
def processorOptions : SortedMap String String :=
  Kapt.Settings.mergedOptions ws.root (.standard ws.roots unit.target)
    toolchain.javacOptions.processing.parameters

/-- What is written into tokens: keys and values of the processor options, and the language level. -/
def tokenTexts : List String :=
  OptionToken.strings (processorOptions ws unit toolchain) ++ toolchain.jvmTarget.toList

/-- The first parameter that is no assignment. -/
def malformed? : Option String :=
  toolchain.javacOptions.processing.parameters.toList.find? fun p => ¬ Kapt.Settings.IsAssignment p

/-- The first text that is too long for a token. -/
def overlong? : Option String := (tokenTexts ws unit toolchain).find? fun s => ¬ OptionToken.Fits s

/-- What can go wrong before settings are assembled. -/
def assemblyObstacles : List (Option PlanError) :=
  [if toolchain.processingJar = none then some (.missingProcessingClasspath unit.target.label) else none,
    if toolchain.standardLibrary = none then some (.missingStandardLibrary unit.target.label) else none,
    (malformed? toolchain).map .malformedParameter]

/-- What can go wrong when options are put into tokens. The count of entries overflows its field only where
there are some two thousand million parameters. -/
def tokenObstacles : List (Option PlanError) :=
  [if OptionToken.maxCount < (processorOptions ws unit toolchain).size then
      some (.encoding (.tooManyEntries (processorOptions ws unit toolchain).size))
    else none,
    (overlong? ws unit toolchain).map fun s => .encoding (OptionToken.tooLong s)]

/-- The first thing that goes wrong, in the order it is looked at. -/
def obstacle? : Option PlanError :=
  (assemblyObstacles unit toolchain ++ tokenObstacles ws unit toolchain).findSome? id

end Obstacles

section First
variable {ws : Workspace} {unit : SourceUnit} {toolchain : Toolchain}

theorem malformed?_eq_none_iff : malformed? toolchain = none ↔
    ∀ p ∈ toolchain.javacOptions.processing.parameters, Kapt.Settings.IsAssignment p := by
  simp [malformed?]

theorem overlong?_eq_none_iff :
    overlong? ws unit toolchain = none ↔ ∀ s ∈ tokenTexts ws unit toolchain, OptionToken.Fits s :=
  OptionToken.find?_eq_none_iff

theorem assemble_of_assemblyObstacles (ws : Workspace) (unit : SourceUnit) (toolchain : Toolchain) :
    match (assemblyObstacles unit toolchain).findSome? id with
    | some e => Kapt.Settings.assemble ws.root unit.target (.standard ws.roots unit.target)
        toolchain.javacOptions.processing toolchain = .error e
    | none => ∃ s, Kapt.Settings.assemble ws.root unit.target (.standard ws.roots unit.target)
        toolchain.javacOptions.processing toolchain = .ok s ∧
          s.options = processorOptions ws unit toolchain ∧
          s.javacArguments = Kapt.Settings.levels toolchain.jvmTarget := by
  by_cases hjar : toolchain.processingJar = none
  · simp only [assemblyObstacles, if_pos hjar, List.findSome?_cons, id_eq]
    exact Kapt.Settings.assemble_of_no_processingJar hjar
  by_cases hlibrary : toolchain.standardLibrary = none
  · simp only [assemblyObstacles, if_neg hjar, if_pos hlibrary, List.findSome?_cons, id_eq]
    exact Kapt.Settings.assemble_of_no_standardLibrary hjar hlibrary
  cases hparameter : malformed? toolchain with
  | some parameter =>
    simp only [assemblyObstacles, if_neg hjar, if_neg hlibrary, hparameter, Option.map_some,
      List.findSome?_cons, id_eq]
    exact Kapt.Settings.assemble_of_find? hjar hlibrary hparameter
  | none =>
    simp only [assemblyObstacles, if_neg hjar, if_neg hlibrary, hparameter, Option.map_none,
      List.findSome?_cons, List.findSome?_nil, id_eq]
    exact Kapt.Settings.assemble_of_assignments hjar hlibrary (malformed?_eq_none_iff.1 hparameter)

theorem pluginOptions_of_tokenObstacles {s : Kapt.Settings}
    (hoptions : s.options = processorOptions ws unit toolchain)
    (hlevel : s.javacArguments = Kapt.Settings.levels toolchain.jvmTarget) :
    match (tokenObstacles ws unit toolchain).findSome? id with
    | some e => s.pluginOptions ws.root = .error e
    | none => ∃ options, s.pluginOptions ws.root = .ok options := by
  rw [tokenObstacles, overlong?, tokenTexts, ← hoptions]
  by_cases hcount : OptionToken.maxCount < s.options.size
  · simp only [if_pos hcount, List.findSome?_cons, id_eq]
    exact Kapt.Settings.pluginOptions_of_count ws.root hcount
  have hsize : s.options.size ≤ OptionToken.maxCount := Nat.not_lt.1 hcount
  cases htext : (OptionToken.strings s.options ++ toolchain.jvmTarget.toList).find? fun s =>
      ¬ OptionToken.Fits s with
  | some text =>
    simp only [if_neg hcount, Option.map_some, List.findSome?_cons, id_eq]
    exact Kapt.Settings.pluginOptions_of_find? ws.root hlevel hsize htext
  | none =>
    simp only [if_neg hcount, Option.map_none, List.findSome?_cons, List.findSome?_nil, id_eq]
    exact Kapt.Settings.pluginOptions_of_fits ws.root hlevel hsize (OptionToken.find?_eq_none_iff.1 htext)

theorem obstacle?_eq_none_iff : obstacle? ws unit toolchain = none ↔
    toolchain.processingJar ≠ none ∧ toolchain.standardLibrary ≠ none ∧
      (∀ p ∈ toolchain.javacOptions.processing.parameters, Kapt.Settings.IsAssignment p) ∧
      (processorOptions ws unit toolchain).size ≤ OptionToken.maxCount ∧
      ∀ s ∈ tokenTexts ws unit toolchain, OptionToken.Fits s := by
  rw [← malformed?_eq_none_iff, ← overlong?_eq_none_iff, obstacle?, List.findSome?_eq_none_iff]
  simp [assemblyObstacles, tokenObstacles]

theorem exists_obstacle?_iff : (∃ e, obstacle? ws unit toolchain = some e) ↔
    toolchain.processingJar = none ∨ toolchain.standardLibrary = none ∨
      (∃ p ∈ toolchain.javacOptions.processing.parameters, ¬ Kapt.Settings.IsAssignment p) ∨
      OptionToken.maxCount < (processorOptions ws unit toolchain).size ∨
      ∃ s ∈ tokenTexts ws unit toolchain, ¬ OptionToken.Fits s := by
  rw [← Option.ne_none_iff_exists', Ne, obstacle?_eq_none_iff]
  simp only [not_and_or, not_forall, not_not, Nat.not_le, exists_prop]

theorem malformed?_eq_some {p : String} (h : malformed? toolchain = some p) :
    p ∈ toolchain.javacOptions.processing.parameters ∧ ¬ Kapt.Settings.IsAssignment p ∧
      ∀ other ∈ toolchain.javacOptions.processing.parameters, ¬ Kapt.Settings.IsAssignment other →
        (compare p other).isLE = true := by
  rw [malformed?] at h
  have hfault := List.find?_some h
  refine ⟨List.mem_of_find?_eq_some h, of_decide_eq_true hfault, fun other hother hother' => ?_⟩
  exact SortedSet.isLE_of_find? h hother (decide_eq_true hother')

/-- Every entry but one comes from a parameter. -/
theorem size_processorOptions_le (ws : Workspace) (unit : SourceUnit) (toolchain : Toolchain) :
    (processorOptions ws unit toolchain).size ≤
      toolchain.javacOptions.processing.parameters.toList.length + 1 := by
  have hsize := SortedMap.size_ofList_le ((Kapt.Settings.kotlinSourcesKey,
    (ws.root.join (Kapt.Directories.standard ws.roots unit.target).kotlinSources).spelling) ::
      toolchain.javacOptions.processing.parameters.toList.map Kapt.Settings.assignment)
  rwa [List.length_cons, List.length_map] at hsize

/-- The error says what is wrong. -/
theorem cases_of_obstacle? {e : PlanError} (h : obstacle? ws unit toolchain = some e) :
    e = .missingProcessingClasspath unit.target.label ∨ e = .missingStandardLibrary unit.target.label ∨
      (∃ p, e = .malformedParameter p) ∨
      (OptionToken.maxCount < (processorOptions ws unit toolchain).size ∧
        e = .encoding (.tooManyEntries (processorOptions ws unit toolchain).size)) ∨
      ∃ s, e = .encoding (OptionToken.tooLong s) := by
  obtain ⟨obstacle, hmem, hobstacle⟩ := List.exists_of_findSome?_eq_some h
  obtain rfl : obstacle = some e := hobstacle
  rw [assemblyObstacles, tokenObstacles] at hmem
  simp only [List.cons_append, List.nil_append, List.mem_cons, List.not_mem_nil, or_false] at hmem
  rcases hmem with hjar | hlibrary | hparameter | hcount | htext
  · split at hjar
    · exact .inl (Option.some.inj hjar)
    · cases hjar
  · split at hlibrary
    · exact .inr (.inl (Option.some.inj hlibrary))
    · cases hlibrary
  · obtain ⟨p, -, rfl⟩ := Option.map_eq_some_iff.1 hparameter.symm
    exact .inr (.inr (.inl ⟨p, rfl⟩))
  · split at hcount
    · rename_i hsize
      exact .inr (.inr (.inr (.inl ⟨hsize, Option.some.inj hcount⟩)))
    · cases hcount
  · obtain ⟨s, -, rfl⟩ := Option.map_eq_some_iff.1 htext.symm
    exact .inr (.inr (.inr (.inr ⟨s, rfl⟩)))

theorem maxCount_lt_of_obstacle? {count : Nat}
    (h : obstacle? ws unit toolchain = some (.encoding (.tooManyEntries count))) :
    OptionToken.maxCount < (processorOptions ws unit toolchain).size := by
  rcases cases_of_obstacle? h with hjar | hlibrary | ⟨p, hparameter⟩ | ⟨hcount, -⟩ | ⟨s, htext⟩
  · cases hjar
  · cases hlibrary
  · cases hparameter
  · exact hcount
  · cases htext

theorem obstacle?_ne_absoluteTemplate (template : String) :
    obstacle? ws unit toolchain ≠ some (.absoluteTemplate template) := by
  intro h
  rcases cases_of_obstacle? h with hjar | hlibrary | ⟨p, hparameter⟩ | ⟨-, hcount⟩ | ⟨s, htext⟩
  · cases hjar
  · cases hlibrary
  · cases hparameter
  · cases hcount
  · cases htext

end First

/-! ### Drafts -/

section Make
variable {ws : Workspace} {unit : SourceUnit} {toolchain : Toolchain}

theorem make_of_kapt (hmode : CompileMode.decide unit toolchain = .kotlinWithKapt) :
    make ws unit toolchain = kotlin ws unit toolchain .kotlinWithKapt := by
  rw [make, hmode]
  rfl

theorem make_of_assemble_eq_error (hmode : CompileMode.decide unit toolchain = .kotlinWithKapt) {e : PlanError}
    (h : Kapt.Settings.assemble ws.root unit.target (.standard ws.roots unit.target)
      toolchain.javacOptions.processing toolchain = .error e) : make ws unit toolchain = .error e := by
  rw [make_of_kapt hmode, kotlin, settings, h]
  rfl

section Assembled
variable (hmode : CompileMode.decide unit toolchain = .kotlinWithKapt) {s : Kapt.Settings}
  (hassemble : Kapt.Settings.assemble ws.root unit.target (.standard ws.roots unit.target)
    toolchain.javacOptions.processing toolchain = .ok s)
include hmode hassemble

theorem make_of_pluginOptions_eq_error {e : PlanError} (h : s.pluginOptions ws.root = .error e) :
    make ws unit toolchain = .error e := by
  rw [make_of_kapt hmode, kotlin, settings, hassemble]
  refine bind_eq_error.2 (.inr ⟨some s, rfl, bind_eq_error.2 (.inl ?_)⟩)
  rw [Kotlinc.run, Kotlinc.arguments, Kotlinc.processingArguments, Kapt.Settings.arguments, h]
  rfl

theorem exists_make_of_pluginOptions_eq_ok {options : List String} (h : s.pluginOptions ws.root = .ok options) :
    ∃ draft, make ws unit toolchain = .ok draft := by
  have hsettings : settings ws unit toolchain (CompileMode.decide unit toolchain) = .ok (some s) := by
    rw [hmode, settings, hassemble]
    rfl
  have hrun : ∃ run, Kotlinc.run ws.root unit toolchain (some s) (friends ws unit toolchain)
      (ws.roots.annotationPath unit.target .pluginGenerated) = .ok run := by
    rw [Kotlinc.run, Kotlinc.arguments, Kotlinc.processingArguments, Kapt.Settings.arguments, h]
    exact ⟨_, rfl⟩
  obtain ⟨run, hrun⟩ := hrun
  exact ⟨_, make_of_run (by rw [hmode]; rfl) hsettings hrun⟩

end Assembled

/-- Where the Kotlin compiler does not process annotations, nothing can go wrong. -/
theorem exists_make_of_ne (ws : Workspace) (hmode : CompileMode.decide unit toolchain ≠ .kotlinWithKapt) :
    ∃ draft, make ws unit toolchain = .ok draft := by
  cases hdecide : CompileMode.decide unit toolchain with
  | javaOnly =>
    rw [make, hdecide]
    exact ⟨_, rfl⟩
  | kotlinWithoutKapt =>
    have hsettings : settings ws unit toolchain (CompileMode.decide unit toolchain) = .ok none := by
      rw [hdecide]
      rfl
    exact ⟨_, make_of_run (by rw [hdecide]; rfl) hsettings rfl⟩
  | kotlinWithKapt => exact absurd hdecide hmode

/-- Where the Kotlin compiler processes annotations, the first obstacle is the error, and without obstacles
there is a draft. -/
theorem make_of_obstacle? (ws : Workspace) (hmode : CompileMode.decide unit toolchain = .kotlinWithKapt) :
    match obstacle? ws unit toolchain with
    | some e => make ws unit toolchain = .error e
    | none => ∃ draft, make ws unit toolchain = .ok draft := by
  -- settings are assembled in full before anything is written into tokens
  have hassembly := assemble_of_assemblyObstacles ws unit toolchain
  rw [obstacle?, List.findSome?_append]
  cases hfirst : (assemblyObstacles unit toolchain).findSome? id with
  | some e =>
    rw [hfirst] at hassembly
    exact make_of_assemble_eq_error hmode hassembly
  | none =>
    rw [hfirst] at hassembly
    obtain ⟨s, hassemble, hoptions, hlevel⟩ := hassembly
    have htokens := pluginOptions_of_tokenObstacles hoptions hlevel
    rw [Option.none_or]
    cases hnext : (tokenObstacles ws unit toolchain).findSome? id with
    | some e =>
      rw [hnext] at htokens
      exact make_of_pluginOptions_eq_error hmode hassemble htokens
    | none =>
      rw [hnext] at htokens
      obtain ⟨options, hplugin⟩ := htokens
      exact exists_make_of_pluginOptions_eq_ok hmode hassemble hplugin

/-- A draft fails exactly with the first obstacle to annotation processing in the Kotlin compiler. -/
theorem make_eq_error_iff {e : PlanError} : make ws unit toolchain = .error e ↔
    CompileMode.decide unit toolchain = .kotlinWithKapt ∧ obstacle? ws unit toolchain = some e := by
  by_cases hmode : CompileMode.decide unit toolchain = .kotlinWithKapt
  · have hmake := make_of_obstacle? ws hmode
    cases hobstacle : obstacle? ws unit toolchain with
    | some first =>
      rw [hobstacle] at hmake
      rw [hmake, Except.error.injEq, Option.some_inj, and_iff_right hmode]
    | none =>
      rw [hobstacle] at hmake
      obtain ⟨draft, hdraft⟩ := hmake
      rw [hdraft]
      exact iff_of_false (fun hok => nomatch hok) fun h => (Option.some_ne_none e).symm h.2
  · obtain ⟨draft, hdraft⟩ := exists_make_of_ne ws hmode
    rw [hdraft]
    exact iff_of_false (fun hok => nomatch hok) fun h => hmode h.1

end Make

end Draft

/-! ### Asking the planner -/

section Effects
variable {m : Type → Type} [Monad m] [LawfulMonad m] {ws : Workspace} {unit : SourceUnit} {toolchain : Toolchain}

theorem Plan.makeIn_of_eq_error {e : PlanError} (h : Draft.make ws unit toolchain = .error e)
    (planner : EffectfulPlanner m) : makeIn ws unit toolchain planner = throw e := by
  rw [makeIn, h]
  show throw e >>= _ = _
  apply ExceptT.ext
  rw [ExceptT.run_bind, ExceptT.run_throw, pure_bind]
  rfl

theorem Plan.makeIn_of_eq_ok {draft : Draft} (h : Draft.make ws unit toolchain = .ok draft)
    (planner : EffectfulPlanner m) : makeIn ws unit toolchain planner = draft.complete unit <$>
      planner draft.request.target draft.request.options draft.request.input := by
  rw [makeIn, h]
  show pure draft >>= _ = _
  rw [pure_bind, map_eq_pure_bind]

end Effects

/-! ### Whole plans -/

/-- No plan is made where the Kotlin compiler is to process annotations and a jar is missing, a parameter is
no assignment, or the options are too many or one of them too long for a token. The error is the first of these,
of several parameters it names the least, and the planner of the Java pass is not asked. In all other cases it
is asked once and its error is that of the plan. For the count of entries to overflow there have to be as many
parameters as can be counted, and a template is never to blame. Any planner is meant, be it one with effects or
one that only answers. -/
theorem planning_fails_at_first_obstacle (ws : Workspace) (unit : SourceUnit) (toolchain : Toolchain) :
    ((∃ e, Draft.make ws unit toolchain = .error e) ↔
      CompileMode.decide unit toolchain = .kotlinWithKapt ∧
        (toolchain.processingJar = none ∨ toolchain.standardLibrary = none ∨
          (∃ p ∈ toolchain.javacOptions.processing.parameters, ¬ Kapt.Settings.IsAssignment p) ∨
          OptionToken.maxCount < (Draft.processorOptions ws unit toolchain).size ∨
          ∃ s ∈ Draft.tokenTexts ws unit toolchain, ¬ OptionToken.Fits s)) ∧
    (∀ e, Draft.make ws unit toolchain = .error e ↔
      CompileMode.decide unit toolchain = .kotlinWithKapt ∧ Draft.obstacle? ws unit toolchain = some e) ∧
    (∀ p, Draft.malformed? toolchain = some p →
      p ∈ toolchain.javacOptions.processing.parameters ∧ ¬ Kapt.Settings.IsAssignment p ∧
        ∀ other ∈ toolchain.javacOptions.processing.parameters, ¬ Kapt.Settings.IsAssignment other →
          (compare p other).isLE = true) ∧
    (∀ count, Draft.make ws unit toolchain = .error (.encoding (.tooManyEntries count)) →
      OptionToken.maxCount ≤ toolchain.javacOptions.processing.parameters.toList.length) ∧
    (∀ template, Draft.make ws unit toolchain ≠ .error (.absoluteTemplate template)) ∧
    (∀ (m : Type → Type) [Monad m] [LawfulMonad m] (planner : EffectfulPlanner m),
      (∀ e, Draft.make ws unit toolchain = .error e → Plan.makeIn ws unit toolchain planner = throw e) ∧
      ∀ draft, Draft.make ws unit toolchain = .ok draft →
        Plan.makeIn ws unit toolchain planner = draft.complete unit <$>
          planner draft.request.target draft.request.options draft.request.input) ∧
    ∀ planner : JavaPlanner,
      (∀ e, Draft.make ws unit toolchain = .error e → Plan.make ws unit toolchain planner = .error e) ∧
      ∀ draft, Draft.make ws unit toolchain = .ok draft → Plan.make ws unit toolchain planner =
        (planner draft.request.target draft.request.options draft.request.input).map (draft.complete unit) := by
  refine ⟨?_, fun e => Draft.make_eq_error_iff, ?_, ?_, ?_, ?_, fun planner =>
    ⟨fun e h => Plan.make_eq_error.2 (.inl h), fun draft h => Draft.plan_of_make h planner⟩⟩
  · simp only [Draft.make_eq_error_iff, exists_and_left, Draft.exists_obstacle?_iff]
  · exact fun p h => Draft.malformed?_eq_some h
  · intro count h
    have hcount := Draft.maxCount_lt_of_obstacle? (Draft.make_eq_error_iff.1 h).2
    have hsize := Draft.size_processorOptions_le ws unit toolchain
    omega
  · intro template h
    exact Draft.obstacle?_ne_absoluteTemplate template (Draft.make_eq_error_iff.1 h).2
  · intro m _ _ planner
    exact ⟨fun e h => Plan.makeIn_of_eq_error h planner, fun draft h => Plan.makeIn_of_eq_ok h planner⟩

/-- Keeps a log of what it is asked, and plans nothing. -/
def loggingPlanner : EffectfulPlanner (StateM (List JavaRequest)) := fun target options input => do
  modify (· ++ [⟨target, options, input⟩])
  return []

theorem kaptUnit_fails_without_jar_and_asks_once :
    (CompileMode.decide kaptUnit { kaptToolchain with processingJar := none } = .kotlinWithKapt ∧
      (Plan.makeIn kaptWorkspace kaptUnit { kaptToolchain with processingJar := none } loggingPlanner).run.run [] =
        (.error (.missingProcessingClasspath kaptUnit.target.label), [])) ∧
    ∃ draft, Draft.make kaptWorkspace kaptUnit kaptToolchain = .ok draft ∧
      (Plan.makeIn kaptWorkspace kaptUnit kaptToolchain loggingPlanner).run.run [] =
        (.ok (draft.complete kaptUnit []), [draft.request]) := by
  have hmode : CompileMode.decide kaptUnit { kaptToolchain with processingJar := none } = .kotlinWithKapt := by
    decide +kernel
  obtain ⟨-, herror, -, -, -, hasked, -⟩ :=
    planning_fails_at_first_obstacle kaptWorkspace kaptUnit { kaptToolchain with processingJar := none }
  obtain ⟨-, -, -, -, -, haskedOnce, -⟩ := planning_fails_at_first_obstacle kaptWorkspace kaptUnit kaptToolchain
  obtain ⟨draft, -, hdraft, -⟩ := exists_kaptPlan
  have hfails := (herror (.missingProcessingClasspath kaptUnit.target.label)).2 ⟨hmode, rfl⟩
  refine ⟨⟨hmode, ?_⟩, draft, hdraft, ?_⟩
  · rw [(hasked _ loggingPlanner).1 _ hfails]
    rfl
  · rw [(haskedOnce _ loggingPlanner).2 draft hdraft]
    rfl

/-! A toolchain with any number of parameters, each of them short and for a key of its own. -/

/-- A parameter that assigns a number to itself. -/
def numberedParameter (n : Nat) : String :=
  String.ofList (Text.decimal n) ++ "=" ++ String.ofList (Text.decimal n)

def crowdedToolchain (count : Nat) : Toolchain :=
  { kaptToolchain with javacOptions := { processing := {
      plugins := kaptToolchain.javacOptions.processing.plugins
      parameters := .ofList ((List.range count).map numberedParameter) } } }

section Crowded
variable {count : Nat}

theorem decide_crowdedToolchain : CompileMode.decide kaptUnit (crowdedToolchain count) = .kotlinWithKapt := by
  have hinput : kaptUnit.hasKotlinInput = true := by decide +kernel
  rw [CompileMode.decide, hinput]
  rfl

theorem mem_crowdedParameters_iff {p : String} :
    p ∈ (crowdedToolchain count).javacOptions.processing.parameters ↔ ∃ n < count, p = numberedParameter n := by
  refine (SortedSet.mem_ofList_iff fun _ _ _ _ => Std.LawfulEqOrd.eq_of_compare).trans ?_
  rw [List.mem_map]
  simp only [List.mem_range, eq_comm (a := p)]

theorem isAssignment_of_mem_crowdedParameters :
    ∀ p ∈ (crowdedToolchain count).javacOptions.processing.parameters, Kapt.Settings.IsAssignment p := by
  intro p hp
  obtain ⟨n, -, rfl⟩ := mem_crowdedParameters_iff.1 hp
  refine ⟨Text.decimal n, Text.decimal n, ?_, Text.decimal_ne_nil n, Text.decimal_ne_nil n,
    Text.not_mem_decimal rfl n, Text.not_mem_decimal rfl n⟩
  rw [numberedParameter, Kapt.Settings.toList_parameter, String.toList_ofList]

/-- Each number is a key. -/
theorem le_size_crowdedOptions (ws : Workspace) (unit : SourceUnit) :
    count ≤ (Draft.processorOptions ws unit (crowdedToolchain count)).size := by
  have hnodup : ((List.range count).map fun n => String.ofList (Text.decimal n)).Nodup :=
    List.nodup_range.map fun n m h => Text.decimal_inj (String.ofList_injective h)
  have hlength := SortedMap.length_le_size (m := Draft.processorOptions ws unit (crowdedToolchain count)) hnodup ?_
  · rwa [List.length_map, List.length_range] at hlength
  · intro key hkey
    obtain ⟨n, hn, rfl⟩ := List.mem_map.1 hkey
    exact (Kapt.Settings.exists_mem_mergedOptions_iff isAssignment_of_mem_crowdedParameters _ _).2
      (.inr ⟨_, mem_crowdedParameters_iff.2 ⟨n, List.mem_range.1 hn, rfl⟩⟩)

/-- An entry assigns a number to itself, or it is the one that is always there. -/
theorem cases_of_mem_crowdedOptions {ws : Workspace} {unit : SourceUnit} {key value : String}
    (h : (key, value) ∈ (Draft.processorOptions ws unit (crowdedToolchain count)).entries) :
    (∃ n < count, key = String.ofList (Text.decimal n) ∧ value = String.ofList (Text.decimal n)) ∨
      key = Kapt.Settings.kotlinSourcesKey ∧
        value = (ws.root.join (Kapt.Directories.standard ws.roots unit.target).kotlinSources).spelling := by
  rcases (Kapt.Settings.mem_mergedOptions_iff isAssignment_of_mem_crowdedParameters _ _).1 h with
    hsets | ⟨hkey, -, hvalue⟩
  · -- the parameter has one equals sign, so the number on either side of it is the key and the value
    obtain ⟨n, hn, hparameter⟩ := mem_crowdedParameters_iff.1 hsets.1
    have hassignment := isAssignment_of_mem_crowdedParameters _ hsets.1
    have hpair := (Kapt.Settings.assignment_eq_iff hassignment).2 rfl
    rw [(Kapt.Settings.assignment_eq_iff hassignment).2 hparameter] at hpair
    obtain ⟨hkey, hvalue⟩ := Prod.mk.inj hpair
    exact .inl ⟨n, hn, hkey.symm, hvalue.symm⟩
  · exact .inr ⟨hkey, hvalue⟩

theorem fits_of_mem_crowdedTexts {ws : Workspace} {unit : SourceUnit} (hcount : count ≤ OptionToken.maxCount + 1)
    (hdir : OptionToken.Fits (ws.root.join (Kapt.Directories.standard ws.roots unit.target).kotlinSources).spelling) :
    ∀ s ∈ Draft.tokenTexts ws unit (crowdedToolchain count), OptionToken.Fits s := by
  have htexts : Draft.tokenTexts ws unit (crowdedToolchain count) =
      OptionToken.strings (Draft.processorOptions ws unit (crowdedToolchain count)) := List.append_nil _
  rw [htexts, OptionToken.forall_mem_strings_iff]
  intro e he
  rcases cases_of_mem_crowdedOptions he with ⟨n, hn, hkey, hvalue⟩ | ⟨hkey, hvalue⟩
  · have hfits : OptionToken.Fits (String.ofList (Text.decimal n)) := OptionToken.fits_decimal (by omega)
    rw [hkey, hvalue]
    exact ⟨hfits, hfits⟩
  · rw [hkey, hvalue]
    exact ⟨by decide +kernel, hdir⟩

end Crowded

/-- With one parameter more than entries can be counted there is no draft, though there are both jars, every
parameter is an assignment and every text fits. -/
theorem crowdedToolchain_fails_by_count_alone :
    let toolchain := crowdedToolchain (OptionToken.maxCount + 1)
    ¬ ((∃ e, Draft.make kaptWorkspace kaptUnit toolchain = .error e) ↔
      CompileMode.decide kaptUnit toolchain = .kotlinWithKapt ∧
        (toolchain.processingJar = none ∨ toolchain.standardLibrary = none ∨
          (∃ p ∈ toolchain.javacOptions.processing.parameters, ¬ Kapt.Settings.IsAssignment p) ∨
          ∃ s ∈ Draft.tokenTexts kaptWorkspace kaptUnit toolchain, ¬ OptionToken.Fits s)) := by
  intro toolchain hiff
  have hcount : OptionToken.maxCount < (Draft.processorOptions kaptWorkspace kaptUnit toolchain).size :=
    le_size_crowdedOptions kaptWorkspace kaptUnit
  obtain ⟨e, hobstacle⟩ := Draft.exists_obstacle?_iff.2 (.inr (.inr (.inr (.inl hcount))))
  obtain ⟨-, hjar | hlibrary | ⟨p, hp, hmalformed⟩ | ⟨s, hs, hlong⟩⟩ :=
    hiff.1 ⟨e, Draft.make_eq_error_iff.2 ⟨decide_crowdedToolchain, hobstacle⟩⟩
  · cases hjar
  · cases hlibrary
  · exact hmalformed (isAssignment_of_mem_crowdedParameters p hp)
  · exact hlong (fits_of_mem_crowdedTexts (Nat.le_refl _) (by decide +kernel) s hs)

end JarPlan
