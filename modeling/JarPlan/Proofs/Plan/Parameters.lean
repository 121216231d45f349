import JarPlan.Proofs.Plan.Classpaths
import JarPlan.Proofs.Plan.UnreadSettings
/-!
# Parameters that one compiler refuses

Parameters of processors are looked at where they are used: when settings for the Kotlin compiler are
assembled, and when the arguments of the Java compiler are written. The first takes assignments only, with one
equals sign and text on both sides of it; the second takes whatever has an equals sign. So the Kotlin compiler
refuses all that the Java compiler refuses. It refuses more exactly when there is an equals sign in every
parameter and one of them is no assignment for all that, and then a Kotlin source that is added to a unit turns
a plan into an error.
-/

namespace JarPlan

/-! ### Refusing -/

/-- The outcome is an error that names a parameter. -/
def IsRefused {α : Type} (outcome : Except PlanError α) : Prop :=
  ∃ parameter, outcome = .error (.malformedParameter parameter)

theorem not_isRefused_ok {α : Type} (a : α) : ¬ IsRefused (.ok a) := by
  rintro ⟨parameter, herror⟩
  cases herror

theorem isRefused_error_iff {α : Type} {e : PlanError} :
    IsRefused (.error e : Except PlanError α) ↔ ∃ parameter, e = .malformedParameter parameter := by
  simp only [IsRefused, Except.error.injEq]

theorem isRefused_map_iff {α β : Type} {outcome : Except PlanError α} {f : α → β} :
    IsRefused (outcome.map f) ↔ IsRefused outcome := by
  cases outcome with
  | ok a => exact iff_of_false (not_isRefused_ok _) (not_isRefused_ok a)
  | error e => exact isRefused_error_iff.trans isRefused_error_iff.symm

theorem not_isRefused_bind {α β : Type} {x : Except PlanError α} {f : α → Except PlanError β}
    (hx : ¬ IsRefused x) (hf : ∀ a, x = .ok a → ¬ IsRefused (f a)) : ¬ IsRefused (x >>= f) := by
  rintro ⟨parameter, herror⟩
  rcases bind_eq_error.1 herror with herror | ⟨a, ha, herror⟩
  · exact hx ⟨parameter, herror⟩
  · exact hf a ha ⟨parameter, herror⟩

/-- The outcome is an error that names the first parameter without the property, or a result where there is
none. -/
def RefusesFirst {α : Type} (P : String → Prop) [DecidablePred P] (parameters : SortedSet String)
    (outcome : Except PlanError α) : Prop :=
  match parameters.toList.find? fun parameter => ¬ P parameter with
  | some parameter => outcome = .error (.malformedParameter parameter)
  | none => ∃ a, outcome = .ok a

namespace RefusesFirst

variable {α : Type} {P : String → Prop} [DecidablePred P] {parameters : SortedSet String}
  {outcome : Except PlanError α} (h : RefusesFirst P parameters outcome)
include h

theorem cases : (IsRefused outcome ∧ ∃ parameter ∈ parameters, ¬ P parameter) ∨
    (∃ a, outcome = .ok a) ∧ ∀ parameter ∈ parameters, P parameter := by
  rw [RefusesFirst] at h
  split at h
  · rename_i parameter hfind
    have hfault := List.find?_some hfind
    exact .inl ⟨⟨parameter, h⟩, parameter, List.mem_of_find?_eq_some hfind, of_decide_eq_true hfault⟩
  · rename_i hnone
    exact .inr ⟨h, fun parameter hparameter => by simpa using List.find?_eq_none.1 hnone parameter hparameter⟩

theorem isRefused_iff : IsRefused outcome ↔ ∃ parameter ∈ parameters, ¬ P parameter := by
  rcases h.cases with ⟨hrefused, hfault⟩ | ⟨⟨a, rfl⟩, hall⟩
  · exact iff_of_true hrefused hfault
  · refine iff_of_false (not_isRefused_ok a) ?_
    rintro ⟨parameter, hparameter, hfault⟩
    exact hfault (hall parameter hparameter)

theorem exists_ok (haccepted : ¬ IsRefused outcome) : ∃ a, outcome = .ok a := by
  rcases h.cases with ⟨hrefused, -⟩ | ⟨hok, -⟩
  · exact absurd hrefused haccepted
  · exact hok

end RefusesFirst

/-! ### The Java compiler -/

namespace Javac

theorem parameterArgument_of_mem {parameter : String} (h : '=' ∈ parameter.toList) :
    parameterArgument parameter = .ok ("-A" ++ parameter) := by
  rw [parameterArgument, if_pos (List.contains_iff_mem.2 h)]

theorem parameterArgument_of_not_mem {parameter : String} (h : '=' ∉ parameter.toList) :
    parameterArgument parameter = .error (.malformedParameter parameter) := by
  rw [parameterArgument, if_neg (mt List.contains_iff_mem.1 h)]

/-- Where there are processors and sources, a parameter has to have an equals sign. -/
theorem refusesFirst_planner (target : Target) {options : JavacOptions} {input : JavaInput}
    (hplugins : options.processing.plugins ≠ []) (hsources : input.sources ≠ []) :
    RefusesFirst (fun parameter => '=' ∈ parameter.toList) options.processing.parameters
      (planner target options input) := by
  have hprocessing : options.processing.isEmpty = false := List.isEmpty_eq_false_iff.2 hplugins
  have hinput : input.sources.isEmpty = false := List.isEmpty_eq_false_iff.2 hsources
  rw [RefusesFirst, planner, hinput, arguments, processingArguments, hprocessing,
    mapM_eq_match (fun _ => parameterArgument_of_mem) fun _ => parameterArgument_of_not_mem]
  cases options.processing.parameters.toList.find? fun parameter => ¬ '=' ∈ parameter.toList with
  | some parameter => rfl
  | none => exact ⟨_, rfl⟩

/-- Without processors nothing is refused. -/
theorem not_isRefused_planner (target : Target) {options : JavacOptions} (input : JavaInput)
    (hplugins : options.processing.plugins = []) : ¬ IsRefused (planner target options input) := by
  have hprocessing : options.processing.isEmpty = true := List.isEmpty_iff.2 hplugins
  rw [planner, arguments, processingArguments, hprocessing]
  split
  · exact not_isRefused_ok _
  · exact not_isRefused_ok _

end Javac

/-! ### The Kotlin compiler -/

namespace Kapt.Settings

theorem equals_mem_of_isAssignment {parameter : String} (h : IsAssignment parameter) : '=' ∈ parameter.toList := by
  obtain ⟨key, value, hparameter, -⟩ := h
  rw [hparameter]
  exact List.mem_append_right _ List.mem_cons_self

/-- There is no assignment without an equals sign, so it is a parameter with an equals sign that makes a
difference. -/
theorem faults_agree_iff (parameters : SortedSet String) :
    ((∃ parameter ∈ parameters, ¬ IsAssignment parameter) ↔
        ∃ parameter ∈ parameters, '=' ∉ parameter.toList) ↔
      (∃ parameter ∈ parameters, '=' ∉ parameter.toList) ∨
        ∀ parameter ∈ parameters, IsAssignment parameter := by
  have hstricter : (∃ parameter ∈ parameters, '=' ∉ parameter.toList) →
      ∃ parameter ∈ parameters, ¬ IsAssignment parameter := by
    rintro ⟨parameter, hparameter, hfree⟩
    exact ⟨parameter, hparameter, mt equals_mem_of_isAssignment hfree⟩
  constructor
  · intro hsame
    by_cases hfault : ∃ parameter ∈ parameters, ¬ IsAssignment parameter
    · exact .inl (hsame.1 hfault)
    · exact .inr fun parameter hparameter => not_not.1 fun h => hfault ⟨parameter, hparameter, h⟩
  · rintro (hfree | hall)
    · exact iff_of_true (hstricter hfree) hfree
    · have hnone : ¬ ∃ parameter ∈ parameters, ¬ IsAssignment parameter := by
        rintro ⟨parameter, hparameter, hfault⟩
        exact hfault (hall parameter hparameter)
      exact iff_of_false hnone (mt hstricter hnone)

/-- Where both jars are there, a parameter has to be an assignment. -/
theorem refusesFirst_assemble (root : Path) (t : Target) (dirs : Directories) (request : Processing)
    {toolchain : Toolchain} (hjar : toolchain.processingJar ≠ none) (hlibrary : toolchain.standardLibrary ≠ none) :
    RefusesFirst IsAssignment request.parameters (assemble root t dirs request toolchain) := by
  rw [RefusesFirst]
  split
  · rename_i parameter hfind
    exact assemble_of_find? hjar hlibrary hfind
  · rename_i hnone
    obtain ⟨s, hs, -⟩ := assemble_of_assignments hjar hlibrary fun parameter hparameter => by
      simpa using List.find?_eq_none.1 hnone parameter hparameter
    exact ⟨s, hs⟩

theorem not_isRefused_pluginOptions (s : Settings) (root : Path) : ¬ IsRefused (s.pluginOptions root) := by
  have hencode (options : SortedMap String String) :
      ¬ IsRefused ((OptionToken.encode options).mapError .encoding) := by
    cases OptionToken.encode options with
    | ok token => exact not_isRefused_ok token
    | error e =>
      rintro ⟨parameter, herror⟩
      cases herror
  refine not_isRefused_bind (hencode s.options) fun options _ => ?_
  exact not_isRefused_bind (hencode s.javacArguments) fun javacArguments _ => not_isRefused_ok _

end Kapt.Settings

/-! ### Plans -/

section Plans
variable {ws : Workspace} {unit : SourceUnit} {toolchain : Toolchain}

/-- A plan in which the Kotlin compiler processes annotations is refused with its settings: nothing that comes
later names a parameter, and the Java pass has none. -/
theorem Plan.isRefused_iff_of_kapt (hmode : CompileMode.decide unit toolchain = .kotlinWithKapt) :
    IsRefused (Plan.make ws unit toolchain Javac.planner) ↔
      IsRefused (Kapt.Settings.assemble ws.root unit.target (.standard ws.roots unit.target)
        toolchain.javacOptions.processing toolchain) := by
  cases hassemble : Kapt.Settings.assemble ws.root unit.target (.standard ws.roots unit.target)
      toolchain.javacOptions.processing toolchain with
  | error e =>
    have hplan : Plan.make ws unit toolchain Javac.planner = .error e :=
      Plan.make_eq_error.2 (.inl (Draft.make_of_assemble_eq_error hmode hassemble))
    rw [hplan, isRefused_error_iff, isRefused_error_iff]
  | ok s =>
    rw [Plan.make_eq]
    refine iff_of_false (not_isRefused_bind ?_ fun draft hdraft => ?_) (not_isRefused_ok s)
    · have hoptions := s.not_isRefused_pluginOptions ws.root
      cases hplugin : s.pluginOptions ws.root with
      | error e =>
        rw [hplugin, isRefused_error_iff] at hoptions
        rwa [Draft.make_of_pluginOptions_eq_error hmode hassemble hplugin, isRefused_error_iff]
      | ok options =>
        obtain ⟨draft, hdraft⟩ := Draft.exists_make_of_pluginOptions_eq_ok hmode hassemble hplugin
        rw [hdraft]
        exact not_isRefused_ok draft
    · refine not_isRefused_bind ?_ fun javaSteps _ => not_isRefused_ok _
      rcases Draft.cases_of_make hdraft with ⟨hjava, -⟩ | ⟨-, settings, run, -, -, rfl⟩
      · rw [hmode] at hjava
        cases hjava
      · apply Javac.not_isRefused_planner
        rw [Draft.around, hmode]
        rfl

theorem Plan.isRefused_iff_of_javaOnly (hmode : CompileMode.decide unit toolchain = .javaOnly) :
    IsRefused (Plan.make ws unit toolchain Javac.planner) ↔
      IsRefused (Javac.planner unit.target toolchain.javacOptions (Draft.wholeInput unit)) := by
  rw [Draft.plan_of_make (Draft.make_of_javaOnly ws hmode), isRefused_map_iff]
  rfl

end Plans

/-! ### Both compilers -/

open Kapt.Settings in
/-- With parameters of which one is no assignment the one compiler refuses and with parameters of which one has no
equals sign the other. What is not refused has a result. So the two agree exactly where a parameter has no
equals sign or all are assignments, and in no other case is a unit with Kotlin sources refused just as one with
Java sources is. -/
theorem refusals_agree_iff {toolchain : Toolchain} (hjar : toolchain.processingJar ≠ none)
    (hlibrary : toolchain.standardLibrary ≠ none) {options : JavacOptions}
    (hplugins : options.processing.plugins ≠ []) {input : JavaInput} (hsources : input.sources ≠ [])
    (root : Path) (t target : Target) (dirs : Kapt.Directories) :
    (IsRefused (assemble root t dirs options.processing toolchain) ↔
      ∃ parameter ∈ options.processing.parameters, ¬ IsAssignment parameter) ∧
    (IsRefused (Javac.planner target options input) ↔
      ∃ parameter ∈ options.processing.parameters, '=' ∉ parameter.toList) ∧
    (¬ IsRefused (assemble root t dirs options.processing toolchain) →
      ∃ s, assemble root t dirs options.processing toolchain = .ok s) ∧
    (¬ IsRefused (Javac.planner target options input) → ∃ steps, Javac.planner target options input = .ok steps) ∧
    ((IsRefused (assemble root t dirs options.processing toolchain) ↔
        IsRefused (Javac.planner target options input)) ↔
      (∃ parameter ∈ options.processing.parameters, '=' ∉ parameter.toList) ∨
        ∀ parameter ∈ options.processing.parameters, IsAssignment parameter) ∧
    ∀ ws unit unit', CompileMode.decide unit { toolchain with javacOptions := options } = .javaOnly →
      unit.sources.toList ≠ [] →
      CompileMode.decide unit' { toolchain with javacOptions := options } = .kotlinWithKapt →
      ((IsRefused (Plan.make ws unit' { toolchain with javacOptions := options } Javac.planner) ↔
          IsRefused (Plan.make ws unit { toolchain with javacOptions := options } Javac.planner)) ↔
        (∃ parameter ∈ options.processing.parameters, '=' ∉ parameter.toList) ∨
          ∀ parameter ∈ options.processing.parameters, IsAssignment parameter) := by
  have hkotlin := refusesFirst_assemble root t dirs options.processing hjar hlibrary
  have hjava := Javac.refusesFirst_planner target hplugins hsources
  refine ⟨hkotlin.isRefused_iff, hjava.isRefused_iff, hkotlin.exists_ok, hjava.exists_ok, ?_, ?_⟩
  · rw [hkotlin.isRefused_iff, hjava.isRefused_iff, faults_agree_iff]
  · intro ws unit unit' hmode hunit hmode'
    have hjavaPlan : RefusesFirst (fun parameter => '=' ∈ parameter.toList) options.processing.parameters
        (Javac.planner unit.target options (Draft.wholeInput unit)) :=
      Javac.refusesFirst_planner unit.target hplugins hunit
    have hkotlinPlan : RefusesFirst IsAssignment options.processing.parameters
        (assemble ws.root unit'.target (.standard ws.roots unit'.target) options.processing
          { toolchain with javacOptions := options }) :=
      refusesFirst_assemble ws.root unit'.target _ options.processing hjar hlibrary
    rw [Plan.isRefused_iff_of_kapt hmode', Plan.isRefused_iff_of_javaOnly hmode, hkotlinPlan.isRefused_iff,
      hjavaPlan.isRefused_iff, faults_agree_iff]

/-- Options with a parameter that has an equals sign and no key. -/
def keylessOptions : JavacOptions where
  processing := { plugins := [⟨.ofList ["P"], [⟨"p.jar"⟩]⟩], parameters := .ofList ["=enabled"] }

theorem keyless_refused_with_kotlin_only :
    (IsRefused (Kapt.Settings.assemble kaptWorkspace.root kaptUnit.target
        (.standard kaptWorkspace.roots kaptUnit.target) keylessOptions.processing kaptToolchain) ∧
      ∃ steps, Javac.planner javaUnit.target keylessOptions (Draft.wholeInput javaUnit) = .ok steps) ∧
    ¬ (IsRefused (Plan.make kaptWorkspace kaptUnit { kaptToolchain with javacOptions := keylessOptions }
        Javac.planner) ↔
      IsRefused (Plan.make kaptWorkspace javaUnit { kaptToolchain with javacOptions := keylessOptions }
        Javac.planner)) := by
  have hfault : "=enabled" ∈ keylessOptions.processing.parameters ∧ ¬ Kapt.Settings.IsAssignment "=enabled" :=
    ⟨List.mem_singleton_self _, by decide +kernel⟩
  have hequals : ¬ ∃ parameter ∈ keylessOptions.processing.parameters, '=' ∉ parameter.toList := by
    rintro ⟨parameter, hparameter, hfree⟩
    obtain rfl := List.mem_singleton.1 (SortedSet.mem_of_mem_ofList hparameter)
    exact hfree (by decide)
  have hjar : kaptToolchain.processingJar ≠ none := by decide +kernel
  have hlibrary : kaptToolchain.standardLibrary ≠ none := by decide +kernel
  have hplugins : keylessOptions.processing.plugins ≠ [] := by decide +kernel
  have hsources : (Draft.wholeInput javaUnit).sources ≠ [] := by decide +kernel
  obtain ⟨hkotlin, hjava, -, hok, -, hplans⟩ :=
    refusals_agree_iff hjar hlibrary hplugins hsources kaptWorkspace.root kaptUnit.target javaUnit.target
      (.standard kaptWorkspace.roots kaptUnit.target)
  have hdiffer := hplans kaptWorkspace javaUnit kaptUnit (by decide +kernel) (by decide +kernel) (by decide +kernel)
  refine ⟨⟨hkotlin.2 ⟨_, hfault⟩, hok (mt hjava.1 hequals)⟩, fun hsame => ?_⟩
  rcases hdiffer.1 hsame with hfree | hall
  · exact hequals hfree
  · exact hfault.2 (hall _ hfault.1)

end JarPlan
