import JarPlan.Proofs.Kapt.Settings
import JarPlan.Proofs.Plan.Order
import JarPlan.Proofs.Plan.PluginOptions
/-!
# The phases of a plan

A plan that runs the Kotlin compiler has five phases: directories are made, friends are copied, the
compiler runs, what it generated is put in place, and then come the steps of the Java pass, which stand
as the planner gave them. One compiler at most processes annotations. The arguments of the Kotlin compiler
ask for it exactly where the options of the Java pass have lost their processors.
-/

namespace JarPlan

/-! ### Phases -/

/-- The compiler runs once, at index `k`, with setup before it and follow-up after it. -/
structure InPhases (steps : List Step) (k : Nat) (run : KotlincRun) : Prop where
  compiles : steps[k]? = some (.kotlinc run)
  phase : ∀ (i : Nat) (step : Step), steps[i]? = some step →
    i < k ∧ step.isSetup = true ∨ i = k ∨ k < i ∧ step.isFollowUp = true

namespace InPhases

theorem of_append {before after : List Step} (run : KotlincRun)
    (hbefore : ∀ step ∈ before, step.isSetup = true) (hafter : ∀ step ∈ after, step.isFollowUp = true) :
    InPhases (before ++ .kotlinc run :: after) before.length run where
  compiles := by rw [List.getElem?_append_right (Nat.le_refl _), Nat.sub_self, List.getElem?_cons_zero]
  phase i step hstep := by
    rcases Nat.lt_trichotomy i before.length with hlt | heq | hgt
    · rw [List.getElem?_append_left hlt] at hstep
      exact .inl ⟨hlt, hbefore step (List.mem_of_getElem? hstep)⟩
    · exact .inr (.inl heq)
    · obtain ⟨j, rfl⟩ := Nat.exists_eq_add_of_lt hgt
      have hindex : before.length + j + 1 - before.length = j + 1 := by omega
      rw [List.getElem?_append_right (Nat.le_of_lt hgt), hindex, List.getElem?_cons_succ] at hstep
      exact .inr (.inr ⟨hgt, hafter step (List.mem_of_getElem? hstep)⟩)

variable {steps : List Step} {k : Nat} {run : KotlincRun} (h : InPhases steps k run)
include h

theorem lt_of_isFollowUp {i : Nat} {step : Step} (hstep : steps[i]? = some step)
    (hkind : step.isFollowUp = true) : k < i := by
  rcases h.phase i step hstep with ⟨-, hsetup⟩ | rfl | ⟨hlt, -⟩
  · rw [Step.isSetup_eq_false_of_isFollowUp hkind] at hsetup
    cases hsetup
  · rw [h.compiles] at hstep
    obtain rfl := Option.some.inj hstep
    cases hkind
  · exact hlt

/-- No step but the one run of the compiler is a run of any compiler. -/
theorem eq_of_compiler? {step : Step} (hstep : step ∈ steps) (hcompiler : step.compiler? ≠ none) :
    step = .kotlinc run := by
  obtain ⟨i, hi⟩ := List.getElem?_of_mem hstep
  rcases h.phase i step hi with ⟨-, hkind⟩ | rfl | ⟨-, hkind⟩
  · exact absurd (Step.compiler?_of_isSetup hkind) hcompiler
  · exact Option.some.inj (hi.symm.trans h.compiles)
  · exact absurd (Step.compiler?_of_isFollowUp hkind) hcompiler

theorem javac_not_mem (other : JavacRun) : .javac other ∉ steps := by
  intro hmem
  have hsame := h.eq_of_compiler? hmem (by simp [Step.compiler?])
  cases hsame

end InPhases

namespace Draft

theorem inPhases_around (ws : Workspace) (unit : SourceUnit) (toolchain : Toolchain)
    (settings : Option Kapt.Settings) (run : KotlincRun) :
    ∃ k, InPhases (around ws unit toolchain settings run).steps k run := by
  obtain ⟨dir, hstaging⟩ := isStaging_friends ws unit toolchain
  rw [steps_around]
  refine ⟨_, InPhases.of_append run (fun step hstep => ?_) (fun step hstep => ?_)⟩
  · exact isSetup_of_mem_stepsBefore hstaging hstep
  · exact isFollowUp_of_mem_stepsAfter hstep

end Draft

/-! ### Who processes annotations -/

/-- The arguments pass options to the plugin that processes annotations. -/
def AsksForProcessing (arguments : List String) : Prop :=
  ∃ options, ["-P", options] <:+: arguments ∧ Kapt.Settings.optionLead.toList <+: options.toList

theorem AsksForProcessing.not_nil : ¬ AsksForProcessing [] := by
  intro h
  obtain ⟨options, hinfix, -⟩ := h
  cases List.infix_nil.1 hinfix

theorem AsksForProcessing.of_cons {argument : String} {rest : List String}
    (h : AsksForProcessing (argument :: rest))
    (hskip : argument ≠ "-P" ∨
      ∀ next, rest.head? = some next → ¬ Kapt.Settings.optionLead.toList <+: next.toList) :
    AsksForProcessing rest := by
  obtain ⟨options, hinfix, hlead⟩ := h
  rcases List.infix_cons_iff.1 hinfix with hprefix | hinfix
  · obtain ⟨hflag, hnext⟩ := List.cons_prefix_cons.1 hprefix
    obtain ⟨after, rfl⟩ := hnext
    rcases hskip with hskip | hskip
    · exact absurd hflag.symm hskip
    · exact absurd hlead (hskip options rfl)
  · exact ⟨options, hinfix, hlead⟩

namespace Kotlinc

/-- The arguments that no user gives: friends, annotation processing and the module. Those for compiler plugins
that the toolchain configures count as the user's and are left out. -/
def ownArguments (unit : SourceUnit) (toolchain : Toolchain) (friends : SortedSet Path)
    (processing : List String) : List String :=
  Friends.argument friends :: (processing ++
    (["-module-name", unit.target.moduleName, "-no-stdlib", "-no-reflect"]
      ++ Javac.flag "-jvm-target" toolchain.jvmTarget))

/-- An argument for the module may well be `-P`, such as its name, but what follows it is no option of the
plugin. -/
theorem not_asksForProcessing (unit : SourceUnit) (toolchain : Toolchain) (friends : SortedSet Path) :
    ¬ AsksForProcessing (ownArguments unit toolchain friends []) := by
  intro h
  have hmodule := h.of_cons (.inl (argument_ne_flag friends))
  have hname := hmodule.of_cons (.inl (by decide))
  have hstdlib : AsksForProcessing
      ("-no-stdlib" :: "-no-reflect" :: Javac.flag "-jvm-target" toolchain.jvmTarget) :=
    hname.of_cons (.inr fun next hnext => by rw [← Option.some.inj hnext]; decide)
  have hlevel := (hstdlib.of_cons (.inl (by decide))).of_cons (.inl (by decide))
  cases hjvm : toolchain.jvmTarget with
  | none =>
    rw [hjvm] at hlevel
    exact AsksForProcessing.not_nil hlevel
  | some level =>
    rw [hjvm] at hlevel
    have hlast : AsksForProcessing [level] := hlevel.of_cons (.inl (by decide))
    exact AsksForProcessing.not_nil (hlast.of_cons (.inr fun next hnext => nomatch hnext))

theorem optionLead_prefix_intercalate {s : Kapt.Settings} {root : Path} {options : List String}
    (h : s.pluginOptions root = .ok options) :
    Kapt.Settings.optionLead.toList <+: (",".intercalate options).toList := by
  obtain ⟨hhead, hlead⟩ := pluginOptions_shape h
  obtain ⟨rest, rfl⟩ := List.head?_eq_some_iff.1 hhead
  obtain ⟨tail, htail⟩ := hlead _ List.mem_cons_self
  rw [String.toList_intercalate, List.map_cons, htail, String.toList_append]
  cases rest with
  | nil => exact List.prefix_append _ _
  | cons next rest =>
    rw [List.map_cons, List.intercalate_cons_cons, List.append_assoc]
    exact List.prefix_append _ _

theorem asksForProcessing_of_arguments {s : Kapt.Settings} {root : Path} {processing : List String}
    (h : s.arguments root = .ok processing) (unit : SourceUnit) (toolchain : Toolchain)
    (friends : SortedSet Path) : AsksForProcessing (ownArguments unit toolchain friends processing) := by
  obtain ⟨options, hoptions, h⟩ := bind_eq_ok.1 h
  obtain rfl := Except.ok.inj h
  refine ⟨",".intercalate options, ⟨[Friends.argument friends, "-Xplugin=" ++ s.pluginJar.spelling], _, rfl⟩, ?_⟩
  exact optionLead_prefix_intercalate hoptions

theorem asksForProcessing_iff {ws : Workspace} {unit : SourceUnit} {toolchain : Toolchain} {mode : CompileMode}
    {settings : Option Kapt.Settings} {processing : List String}
    (hsettings : Draft.settings ws unit toolchain mode = .ok settings)
    (hprocessing : processingArguments ws.root settings = .ok processing) (friends : SortedSet Path) :
    AsksForProcessing (ownArguments unit toolchain friends processing) ↔ mode = .kotlinWithKapt := by
  rcases Draft.settings_eq_ok hsettings with ⟨hmode, rfl⟩ | ⟨hmode, s, rfl, -⟩
  · obtain rfl := Except.ok.inj hprocessing
    exact iff_of_false (not_asksForProcessing unit toolchain friends) hmode
  · exact iff_of_true (asksForProcessing_of_arguments hprocessing unit toolchain friends) hmode

end Kotlinc

theorem JavacOptions.forMode_of_ne {mode : CompileMode} (h : mode ≠ .kotlinWithKapt) (options : JavacOptions) :
    options.forMode mode = options := by
  cases mode with
  | kotlinWithKapt => exact absurd rfl h
  | _ => rfl

/-! ### Whole plans -/

/-- A plan is the steps of its draft and then those of the planner. Without Kotlin input the draft has none;
otherwise they are in phases around one run of the Kotlin compiler. Of the arguments that are not the user's,
this run has those for annotation processing exactly where processors are taken out of the options that the
planner gets, and nothing else ever is. Arguments for compiler plugins that the toolchain configures are the
user's, like its extra arguments, and may say anything. -/
theorem plan_in_phases {ws : Workspace} {unit : SourceUnit} {toolchain : Toolchain} {planner : JavaPlanner}
    {plan : Plan} (hplan : Plan.make ws unit toolchain planner = .ok plan) :
    ∃ draft javaSteps, Draft.make ws unit toolchain = .ok draft ∧
      planner draft.request.target draft.request.options draft.request.input = .ok javaSteps ∧
      plan.steps.steps = draft.steps ++ javaSteps ∧
      (plan.mode = .javaOnly → draft.steps = [] ∧ draft.request.options = toolchain.javacOptions) ∧
      (plan.mode ≠ .javaOnly → ∃ k run settings processing,
        InPhases draft.steps k run ∧ (∀ other, .javac other ∉ draft.steps) ∧
        Draft.settings ws unit toolchain plan.mode = .ok settings ∧
        Kotlinc.processingArguments ws.root settings = .ok processing ∧
        run.arguments = Friends.argument (Draft.friends ws unit toolchain).paths ::
          toolchain.compilerPlugins.entries.flatMap (Kotlinc.pluginArguments ws.root
            (ws.root.join (ws.roots.annotationPath unit.target .pluginGenerated)))
          ++ (processing ++ (["-module-name", unit.target.moduleName, "-no-stdlib", "-no-reflect"]
            ++ Javac.flag "-jvm-target" toolchain.jvmTarget))
          ++ toolchain.extraKotlincArguments ∧
        (AsksForProcessing
            (Kotlinc.ownArguments unit toolchain (Draft.friends ws unit toolchain).paths processing) ↔
          plan.mode = .kotlinWithKapt) ∧
        draft.request.options =
          if plan.mode = .kotlinWithKapt then { toolchain.javacOptions with processing := {} }
          else toolchain.javacOptions) := by
  obtain ⟨draft, javaSteps, hdraft, hjava, rfl⟩ := Plan.make_eq_ok.1 hplan
  refine ⟨draft, javaSteps, hdraft, hjava, rfl, ?_, ?_⟩
  · intro hmode
    rcases Draft.cases_of_make hdraft with ⟨-, rfl⟩ | ⟨hruns, settings, run, -, -, rfl⟩
    · exact ⟨rfl, rfl⟩
    · have hnone : CompileMode.decide unit toolchain = .javaOnly := hmode
      rw [hnone] at hruns
      cases hruns
  · intro hmode
    rcases Draft.cases_of_make hdraft with ⟨-, rfl⟩ | ⟨-, settings, run, hsettings, hrun, rfl⟩
    · exact absurd rfl hmode
    · obtain ⟨k, hphases⟩ := Draft.inPhases_around ws unit toolchain settings run
      obtain ⟨processing, hprocessing, harguments⟩ := Kotlinc.arguments_of_run hrun
      refine ⟨k, run, settings, processing, hphases, hphases.javac_not_mem, hsettings, hprocessing,
        harguments, ?_, ?_⟩
      · exact Kotlinc.asksForProcessing_iff hsettings hprocessing _
      · split
        · rename_i hkapt
          have hkapt : CompileMode.decide unit toolchain = .kotlinWithKapt := hkapt
          show toolchain.javacOptions.forMode (CompileMode.decide unit toolchain) = _
          rw [hkapt]
          rfl
        · rename_i hother
          exact JavacOptions.forMode_of_ne hother toolchain.javacOptions

theorem kaptUnit_in_phases :
    ∃ plan, ∃ draft : Draft, ∃ javaSteps k run,
      Plan.make kaptWorkspace kaptUnit kaptToolchain Javac.planner = .ok plan ∧
      plan.mode = .kotlinWithKapt ∧ plan.steps.steps = draft.steps ++ javaSteps ∧
      InPhases draft.steps k run ∧
      draft.request.options = { kaptToolchain.javacOptions with processing := {} } := by
  obtain ⟨-, plan, -, hplan, hmode⟩ := exists_kaptPlan
  obtain ⟨draft, javaSteps, -, -, hsteps, -, hkotlin⟩ := plan_in_phases hplan
  have hruns : plan.mode ≠ .javaOnly := by
    rw [hmode]
    decide
  obtain ⟨k, run, settings, processing, hphases, -, -, -, -, -, hoptions⟩ := hkotlin hruns
  rw [if_pos hmode] at hoptions
  exact ⟨plan, draft, javaSteps, k, run, hplan, hmode, hsteps, hphases, hoptions⟩

end JarPlan
