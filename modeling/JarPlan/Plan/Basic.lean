import JarPlan.Plan.Kotlinc
import JarPlan.UsageRecords
/-!
# Plans

A plan for a unit is the steps that compile it. First comes a draft, which is all that is decided here:
the mode, the steps around the Kotlin compiler where it runs, and the request for the Java pass. Then
the planner for Java is asked once, and its steps follow as they are. A draft fails before any planner
is asked, and a plan fails with the draft or with the planner.
-/

namespace JarPlan

/-- A request for the Java pass. -/
structure JavaRequest where
  target : Target
  options : JavacOptions
  input : JavaInput
deriving DecidableEq, BEq

/-- A plan less the steps of the Java pass. -/
structure Draft where
  mode : CompileMode
  steps : List Step
  request : JavaRequest

structure Plan where
  mode : CompileMode
  steps : StepSequence
  /-- The records that the compilers of the plan write. -/
  records : UsageRecords

namespace Draft

/-! ### What the Java pass is asked for -/

/-- The whole unit, for a Java pass that has nothing before it. -/
def wholeInput (unit : SourceUnit) : JavaInput where
  sources := unit.sources.toList
  classpath := unit.classpath.toList
  outputPaths := unit.outputPaths
  tracksUsage := unit.tracksUsage

/-- The sources that the Kotlin compiler leaves, and the archive of generated ones. -/
def restSources (unit : SourceUnit) (settings : Option Kapt.Settings) : SortedSet Path :=
  let rest := SortedSet.collect (unit.sources.toList.filter (!·.isKotlinInput))
  match settings with
  | some settings => rest.insert settings.dirs.archive
  | none => rest

/-- The entries behind the compiled Kotlin classes on the classpath of the Java pass. -/
def restClasspath (root : Path) (unit : SourceUnit) (toolchain : Toolchain) : SortedSet Path :=
  .collect ((toolchain.extraClasspath.map (fun p => root.relativize p.normalize)
    ++ unit.classpath.toList.map Path.normalize).filter (· != unit.outputPaths.classesDir))

/-- The input of a Java pass that follows the Kotlin compiler. -/
def restInput (root : Path) (unit : SourceUnit) (toolchain : Toolchain)
    (settings : Option Kapt.Settings) : JavaInput where
  sources := (restSources unit settings).toList
  classpath := unit.outputPaths.classesDir :: (restClasspath root unit toolchain).toList
  outputPaths := unit.outputPaths
  tracksUsage := unit.tracksUsage

/-! ### Steps around the Kotlin compiler -/

/-- The settings of annotation processing, in the mode where the Kotlin compiler does it. -/
def settings (ws : Workspace) (unit : SourceUnit) (toolchain : Toolchain) :
    CompileMode → Except PlanError (Option Kapt.Settings)
  | .kotlinWithKapt =>
    (Kapt.Settings.assemble ws.root unit.target (.standard ws.roots unit.target)
      toolchain.javacOptions.processing toolchain).map some
  | _ => .ok none

/-- The friends of a unit, with copies below the scratch tree. -/
def friends (ws : Workspace) (unit : SourceUnit) (toolchain : Toolchain) : Friends.Staged :=
  Friends.stage ws.root toolchain.friendPaths (ws.roots.scratchPath unit.target .friendJars)

/-- The steps up to and after a run of the Kotlin compiler. -/
def kotlinSteps (ws : Workspace) (unit : SourceUnit) (settings : Option Kapt.Settings)
    (friends : Friends.Staged) (generated : Path) (run : KotlincRun) : List Step :=
  (settings.map (·.dirs.preparation)).getD []
    ++ [.makeCleanDir generated]
    ++ friends.steps
    ++ [.kotlinc run]
    ++ (settings.map fun s =>
      s.afterCompiler ws.root unit.target unit.outputPaths.classesDir ws.ignored).getD []

/-- Fails where a step writes below a directory that is prepared only later. -/
def checkOrder (t : Target) (steps : List Step) : Except PlanError Unit :=
  match (StepSequence.mk steps).firstUnpreparedWrite? with
  | some (index, path) => .error (.unpreparedWrite t.label index path)
  | none => .ok ()

/-- The draft of a unit in a mode where the Kotlin compiler runs. -/
def kotlin (ws : Workspace) (unit : SourceUnit) (toolchain : Toolchain) (mode : CompileMode) :
    Except PlanError Draft := do
  let settings ← settings ws unit toolchain mode
  let generated := ws.roots.annotationPath unit.target .pluginGenerated
  let friends := friends ws unit toolchain
  let run ← Kotlinc.run ws.root unit toolchain settings friends generated
  let steps := kotlinSteps ws unit settings friends generated run
  checkOrder unit.target steps
  return {
    mode := mode
    steps := steps
    request := ⟨unit.target, toolchain.javacOptions.forMode mode,
      restInput ws.root unit toolchain settings⟩ }

/-- The draft of a unit that is all Java. -/
def java (unit : SourceUnit) (toolchain : Toolchain) : Draft where
  mode := .javaOnly
  steps := []
  request := ⟨unit.target, toolchain.javacOptions.forMode .javaOnly, wholeInput unit⟩

def make (ws : Workspace) (unit : SourceUnit) (toolchain : Toolchain) : Except PlanError Draft :=
  let mode := CompileMode.decide unit toolchain
  if mode.runsKotlinc then kotlin ws unit toolchain mode else .ok (java unit toolchain)

/-- The plan that a draft and the steps of the Java pass make. -/
def complete (d : Draft) (unit : SourceUnit) (javaSteps : List Step) : Plan where
  mode := d.mode
  steps := ⟨d.steps ++ javaSteps⟩
  records := .ofSteps unit (d.steps ++ javaSteps)

end Draft

namespace Plan

variable (ws : Workspace) (unit : SourceUnit) (toolchain : Toolchain)

/-- The plan of a unit, with all that the planner for the Java pass does on the way. -/
def makeIn {m : Type → Type} [Monad m] (planner : EffectfulPlanner m) : ExceptT PlanError m Plan := do
  let draft ← ExceptT.mk (pure (Draft.make ws unit toolchain))
  let javaSteps ← planner draft.request.target draft.request.options draft.request.input
  return draft.complete unit javaSteps

/-- The plan of a unit, with a planner for the Java pass that only answers. -/
def make (planner : JavaPlanner) : Except PlanError Plan := (makeIn (m := Id) ws unit toolchain planner).run

theorem make_eq (planner : JavaPlanner) : make ws unit toolchain planner = (do
    let draft ← Draft.make ws unit toolchain
    let javaSteps ← planner draft.request.target draft.request.options draft.request.input
    return draft.complete unit javaSteps) := by
  rw [make, makeIn]
  cases Draft.make ws unit toolchain with
  | error e => rfl
  | ok draft =>
    change (ExceptT.bind (m := Id) (ExceptT.mk (planner _ _ _)) _).run = Except.bind (planner _ _ _) _
    cases planner draft.request.target draft.request.options draft.request.input with
    | error e => rfl
    | ok javaSteps => rfl

end Plan

end JarPlan
