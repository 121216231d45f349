import JarPlan.Step.Sequence
/-!
# The Java pass

What the Kotlin pass leaves is handed to a planner for Java, which sees sources, a classpath and places
to write and need not know that another compiler ran before it. The planner here makes one run of
`javac`, or none where there are no sources. Annotation processing is off unless some plugin asks for
it; a parameter for the processors has to contain an equals sign.
-/

namespace JarPlan

/-- Annotation processors that are loaded from one classpath. -/
structure ProcessorPlugin where
  processors : SortedSet String
  classpath : List Path
deriving DecidableEq, BEq

/-- The annotation processing asked for. -/
structure Processing where
  plugins : List ProcessorPlugin := []
  /-- Parameters for the processors, each as `key=value`. -/
  parameters : SortedSet String := ∅
deriving DecidableEq, BEq

namespace Processing

def isEmpty (p : Processing) : Bool := p.plugins.isEmpty

/-- The names of all processors, plugin by plugin. -/
def processors (p : Processing) : List String := p.plugins.flatMap (·.processors.toList)

/-- The classpaths of all plugins, one after the other. -/
def classpath (p : Processing) : List Path := p.plugins.flatMap (·.classpath)

end Processing

structure JavacOptions where
  sourceLevel : Option String := none
  targetLevel : Option String := none
  processing : Processing := {}
  extraArguments : List String := []
deriving DecidableEq, BEq

/-- What a Java pass is asked to compile. -/
structure JavaInput where
  sources : List Path
  classpath : List Path
  outputPaths : OutputPaths
  /-- Whether the compiler records the classes it uses. -/
  tracksUsage : Bool
deriving DecidableEq, BEq

/-- A planner for the Java pass. -/
abbrev JavaPlanner := Target → JavacOptions → JavaInput → Except PlanError (List Step)

/-- A planner for the Java pass that does more than answer, such as keep a log of what it is asked. -/
abbrev EffectfulPlanner (m : Type → Type) : Type :=
  Target → JavacOptions → JavaInput → ExceptT PlanError m (List Step)

namespace Javac

/-- A flag and its value, where there is one. -/
def flag (name : String) : Option String → List String
  | some value => [name, value]
  | none => []

/-- The argument for a processor parameter. -/
def parameterArgument (parameter : String) : Except PlanError String :=
  if parameter.toList.contains '=' then .ok ("-A" ++ parameter) else .error (.malformedParameter parameter)

def processingArguments (p : Processing) : Except PlanError (List String) :=
  if p.isEmpty then .ok ["-proc:none"]
  else do
    let parameters ← p.parameters.toList.mapM parameterArgument
    return ["-processorpath", ":".intercalate (p.classpath.map Path.spelling),
      "-processor", ",".intercalate p.processors] ++ parameters

def arguments (options : JavacOptions) : Except PlanError (List String) := do
  let processing ← processingArguments options.processing
  return flag "-source" options.sourceLevel ++ flag "-target" options.targetLevel ++ processing
    ++ options.extraArguments

/-- The planner that runs `javac` once over all sources. -/
def planner : JavaPlanner := fun target options input =>
  if input.sources.isEmpty then .ok []
  else do
    let arguments ← arguments options
    return [.javac {
      target := target
      outputDir := input.outputPaths.classesDir
      sources := input.sources
      sourcesList := input.outputPaths.sourcesList
      classpath := input.classpath
      arguments := arguments
      record := if input.tracksUsage then some input.outputPaths.javaRecord else none }]

end Javac

end JarPlan
