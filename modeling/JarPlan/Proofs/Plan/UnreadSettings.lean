import JarPlan.Proofs.Plan.Obstacles
/-!
# Settings that are not read

A toolchain holds the settings of both compilers, and no plan reads all of them. Where the Java compiler is
alone, nothing is read but its own options, and nothing of the workspace. Where the Kotlin compiler does not
process annotations, it is not read which tool would, where its jars are and whether timings are reported, and
nothing is archived, so no paths are left out of an archive. Settings that are not read do not show in the plan
or in the error.
-/

namespace JarPlan

/-- All settings agree but those that only annotation processing in the Kotlin compiler reads. -/
structure Toolchain.AgreeOutsideKapt (t u : Toolchain) : Prop where
  kotlinc : t.kotlinc = u.kotlinc
  kotlinLibraries : t.kotlinLibraries = u.kotlinLibraries
  extraKotlincArguments : t.extraKotlincArguments = u.extraKotlincArguments
  compilerPlugins : t.compilerPlugins = u.compilerPlugins
  friendPaths : t.friendPaths = u.friendPaths
  jvmTarget : t.jvmTarget = u.jvmTarget
  extraClasspath : t.extraClasspath = u.extraClasspath
  javacOptions : t.javacOptions = u.javacOptions

namespace Draft

variable {ws ws' : Workspace} {unit : SourceUnit} {toolchain toolchain' : Toolchain}

/-! ### Units for the Java compiler -/

theorem make_of_javaOnly (ws : Workspace) (hmode : CompileMode.decide unit toolchain = .javaOnly) :
    make ws unit toolchain = .ok (java unit toolchain) := by
  rw [make, hmode]
  rfl

theorem java_congr (unit : SourceUnit) (hoptions : toolchain.javacOptions = toolchain'.javacOptions) :
    java unit toolchain = java unit toolchain' := by
  rw [java, hoptions, java]

/-! ### Units for both compilers -/

/-- The order of the steps around the compiler is always right, so only the settings and the arguments may fail. -/
theorem make_of_runsKotlinc (ws : Workspace) (hmode : (CompileMode.decide unit toolchain).runsKotlinc = true) :
    make ws unit toolchain = settings ws unit toolchain (CompileMode.decide unit toolchain) >>= fun settings =>
      (Kotlinc.run ws.root unit toolchain settings (friends ws unit toolchain)
        (ws.roots.annotationPath unit.target .pluginGenerated)).map (around ws unit toolchain settings) := by
  obtain ⟨dir, hstaging⟩ := isStaging_friends ws unit toolchain
  rw [make, if_pos hmode, kotlin]
  refine bind_congr fun settings => ?_
  dsimp only
  cases Kotlinc.run ws.root unit toolchain settings (friends ws unit toolchain)
      (ws.roots.annotationPath unit.target .pluginGenerated) with
  | error e => rfl
  | ok run =>
    refine bind_eq_ok.2 ⟨run, rfl, bind_eq_ok.2 ⟨(), ?_, rfl⟩⟩
    exact checkOrder_eq_ok unit.target (isPhased_kotlinSteps hstaging.isPhased)

/-- Where no annotations are processed, the run of the compiler is the only thing in a draft that may fail. -/
theorem make_of_withoutKapt (ws : Workspace) (hmode : CompileMode.decide unit toolchain = .kotlinWithoutKapt) :
    make ws unit toolchain = (Kotlinc.run ws.root unit toolchain none (friends ws unit toolchain)
      (ws.roots.annotationPath unit.target .pluginGenerated)).map (around ws unit toolchain none) := by
  rw [make_of_runsKotlinc ws (by rw [hmode]; rfl), hmode]
  rfl

section Agree
variable (hroot : ws.root = ws'.root) (hroots : ws.roots = ws'.roots)
  (hagree : toolchain.AgreeOutsideKapt toolchain')
include hroot hagree

theorem restInput_congr (settings : Option Kapt.Settings) :
    restInput ws.root unit toolchain settings = restInput ws'.root unit toolchain' settings := by
  rw [restInput, restInput, restClasspath, restClasspath, hroot, hagree.extraClasspath]

theorem run_congr_of_agree (settings : Option Kapt.Settings) (friends : Friends.Staged) (generated : Path) :
    Kotlinc.run ws.root unit toolchain settings friends generated =
      Kotlinc.run ws'.root unit toolchain' settings friends generated := by
  rw [Kotlinc.run, Kotlinc.run, Kotlinc.arguments, Kotlinc.arguments, hroot, hagree.kotlinc,
    hagree.kotlinLibraries, hagree.extraKotlincArguments, hagree.compilerPlugins, hagree.jvmTarget,
    hagree.extraClasspath]

include hroots

theorem friends_congr : friends ws unit toolchain = friends ws' unit toolchain' := by
  rw [friends, friends, hroot, hroots, hagree.friendPaths]

/-- Without settings for annotation processing there are no steps after the compiler. -/
theorem around_congr (hmode : CompileMode.decide unit toolchain = CompileMode.decide unit toolchain')
    (run : KotlincRun) : around ws unit toolchain none run = around ws' unit toolchain' none run := by
  rw [around, around, kotlinSteps, kotlinSteps, hmode, restInput_congr hroot hagree,
    friends_congr hroot hroots hagree, hroots, hagree.javacOptions]
  rfl

end Agree

end Draft

/-- A plan for the Java compiler alone is given by the unit and the options of that compiler. Where the Kotlin
compiler runs and does not process annotations, the settings of annotation processing and the paths that are not
archived make no difference. -/
theorem plan_ignores_unread_settings (unit : SourceUnit) (planner : JavaPlanner) :
    (unit.hasKotlinInput = false → ∀ ws ws' toolchain toolchain', toolchain.javacOptions = toolchain'.javacOptions →
      Plan.make ws unit toolchain planner = Plan.make ws' unit toolchain' planner) ∧
    (unit.hasKotlinInput = true → ∀ (ws ws' : Workspace) toolchain toolchain',
      CompileMode.decide unit toolchain = .kotlinWithoutKapt →
      CompileMode.decide unit toolchain' = .kotlinWithoutKapt →
      ws.root = ws'.root → ws.roots = ws'.roots → toolchain.AgreeOutsideKapt toolchain' →
      Plan.make ws unit toolchain planner = Plan.make ws' unit toolchain' planner) := by
  constructor
  · intro hinput ws ws' toolchain toolchain' hoptions
    have hmode (toolchain : Toolchain) : CompileMode.decide unit toolchain = .javaOnly := by
      rw [CompileMode.decide, hinput]
      rfl
    rw [Plan.make_eq, Plan.make_eq, Draft.make_of_javaOnly ws (hmode _), Draft.make_of_javaOnly ws' (hmode _),
      Draft.java_congr unit hoptions]
  · intro _ ws ws' toolchain toolchain' hmode hmode' hroot hroots hagree
    have haround : Draft.around ws unit toolchain none = Draft.around ws' unit toolchain' none := by
      funext run
      exact Draft.around_congr hroot hroots hagree (hmode.trans hmode'.symm) run
    have hdraft : Draft.make ws unit toolchain = Draft.make ws' unit toolchain' := by
      rw [Draft.make_of_withoutKapt ws hmode, Draft.make_of_withoutKapt ws' hmode', haround,
        Draft.friends_congr hroot hroots hagree, Draft.run_congr_of_agree hroot hagree, hroots]
    rw [Plan.make_eq, hdraft, Plan.make_eq]

/-- The unit with the Java source alone. -/
def javaUnit : SourceUnit := { kaptUnit with sources := .ofList [⟨"B.java"⟩] }

/-- Without processors, where the tool that would run them is of no account. -/
def processorlessToolchain : Toolchain := { kaptToolchain with javacOptions := {} }

theorem javaUnit_kaptUnit_ignore_settings :
    Plan.make kaptWorkspace javaUnit kaptToolchain Javac.planner =
        Plan.make ⟨⟨"/s"⟩, .below ⟨"bin"⟩, ∅⟩ javaUnit { javacOptions := kaptToolchain.javacOptions }
          Javac.planner ∧
      Plan.make kaptWorkspace kaptUnit processorlessToolchain Javac.planner =
        Plan.make { kaptWorkspace with ignored := .ofList [⟨"out"⟩] } kaptUnit
          { processorlessToolchain with
            processingTool := .javac, processingJar := none, standardLibrary := none, reportsTimings := false }
          Javac.planner :=
  ⟨(plan_ignores_unread_settings javaUnit Javac.planner).1 (by decide +kernel) _ _ _ _ rfl,
    (plan_ignores_unread_settings kaptUnit Javac.planner).2 (by decide +kernel) _ _ _ _ (by decide +kernel)
      (by decide +kernel) rfl rfl ⟨rfl, rfl, rfl, rfl, rfl, rfl, rfl, rfl⟩⟩

end JarPlan
