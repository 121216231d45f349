import JarPlan.Kapt.Directories
import JarPlan.OptionToken.Codec
import JarPlan.Toolchain
/-!
# Settings of annotation processing

All that annotation processing in the Kotlin compiler needs is put together before any step is made, so
a missing jar or a malformed parameter is found first. A parameter has one equals sign with text on both
sides. Parameters become processor options next to one that is always there, the directory for Kotlin
sources, unless a parameter sets it. Processor options and the arguments of the compiler inside the
plugin travel as tokens.
-/

namespace JarPlan.Kapt

structure Settings where
  /-- The jar of the plugin. -/
  pluginJar : Path
  /-- Where processors are loaded from: the plugin, the standard library, then their own jars. -/
  processorClasspath : List Path
  processors : List String
  options : SortedMap String String
  javacArguments : SortedMap String String
  dirs : Directories
  reportsTimings : Bool

namespace Settings

/-- The option that says where processors put Kotlin sources. -/
def kotlinSourcesKey : String := "kapt.kotlin.generated"

/-- The key and value of a parameter. -/
def parseParameter (parameter : String) : Except PlanError (String × String) :=
  match parameter.toList.splitOn '=' with
  | [key, value] =>
    if key.isEmpty || value.isEmpty then .error (.malformedParameter parameter)
    else .ok (String.ofList key, String.ofList value)
  | _ => .error (.malformedParameter parameter)

/-- The processor options of a request: the directory for Kotlin sources, then every parameter. -/
def processorOptions (root : Path) (dirs : Directories) (request : Processing) :
    Except PlanError (SortedMap String String) := do
  let parameters ← request.parameters.toList.mapM parseParameter
  return SortedMap.insertAll ∅ ((kotlinSourcesKey, (root.join dirs.kotlinSources).spelling) :: parameters)

/-- The language levels for the compiler inside the plugin. -/
def levels : Option String → SortedMap String String
  | some level => .ofList [("-source", level), ("-target", level)]
  | none => ∅

/-- An absolute jar, or the error that says it is missing. -/
def require (root : Path) (jar : Option Path) (missing : PlanError) : Except PlanError Path :=
  match jar with
  | some jar => .ok (root.absolutize jar)
  | none => .error missing

/-- The settings for a target. -/
def assemble (root : Path) (t : Target) (dirs : Directories) (request : Processing)
    (toolchain : Toolchain) : Except PlanError Settings := do
  let pluginJar ← require root toolchain.processingJar (.missingProcessingClasspath t.label)
  let library ← require root toolchain.standardLibrary (.missingStandardLibrary t.label)
  let options ← processorOptions root dirs request
  return {
    pluginJar := pluginJar
    processorClasspath := [pluginJar, library] ++ request.classpath.map root.absolutize
    processors := request.processors
    options := options
    javacArguments := levels toolchain.jvmTarget
    dirs := dirs
    reportsTimings := toolchain.reportsTimings }

/-! ### Compiler arguments -/

/-- What every option of the plugin starts with. -/
def optionLead : String := "plugin:org.jetbrains.kotlin.kapt3:"

/-- An option of the plugin, as its name with the equals sign and its value. -/
def pluginOption (name value : String) : String := optionLead ++ name ++ value

/-- The options of the plugin, in the order they are passed. -/
def pluginOptions (s : Settings) (root : Path) : Except PlanError (List String) := do
  let options ← (OptionToken.encode s.options).mapError .encoding
  let javacArguments ← (OptionToken.encode s.javacArguments).mapError .encoding
  let place (dir : Path) := (root.join dir).spelling
  return [pluginOption "aptMode=" "compile"]
    ++ s.processorClasspath.map (fun jar => pluginOption "apclasspath=" jar.spelling)
    ++ s.processors.map (pluginOption "processors=")
    ++ [pluginOption "sources=" (place s.dirs.sources),
      pluginOption "classes=" (place s.dirs.classes),
      pluginOption "stubs=" (place s.dirs.stubs),
      pluginOption "apoptions=" options,
      pluginOption "javacArguments=" javacArguments,
      pluginOption "useLightAnalysis=" "true",
      pluginOption "correctErrorTypes=" "true"]
    ++ (if s.reportsTimings then [pluginOption "dumpProcessorTimings=" (place s.dirs.timings)] else [])

/-- The arguments that load the plugin and set its options. -/
def arguments (s : Settings) (root : Path) : Except PlanError (List String) := do
  let options ← s.pluginOptions root
  return ["-Xplugin=" ++ s.pluginJar.spelling, "-P", ",".intercalate options]

/-! ### Steps around the compiler -/

/-- The directories that the compiler writes into for the plugin. -/
def outputs (s : Settings) : List Path :=
  [s.dirs.stubs, s.dirs.classes, s.dirs.sources, s.dirs.kotlinSources]
    ++ (if s.reportsTimings then [s.dirs.reports] else [])

/-- The steps after the compiler: merge what was generated, forward the timings, archive, and put the
generated classes with the compiled ones. -/
def afterCompiler (s : Settings) (root : Path) (t : Target) (classesDir : Path)
    (ignored : SortedSet Path) : List Step :=
  [s.dirs.sources, s.dirs.classes, s.dirs.kotlinSources].map (fun dir => .copy dir s.dirs.merged .contents)
    ++ (if s.reportsTimings then [.forwardTimings (root.join s.dirs.timings) t] else [])
    ++ [.zip root s.dirs.archive s.dirs.merged ignored, .copy s.dirs.classes classesDir .contents]

end Settings

end JarPlan.Kapt
