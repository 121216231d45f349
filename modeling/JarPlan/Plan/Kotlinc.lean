import JarPlan.Classpath
import JarPlan.Kapt.Settings
import JarPlan.SourceUnit
/-!
# The run of the Kotlin compiler

Where planning happens, and the one run of the Kotlin compiler in a plan: its arguments in their fixed
order, friends first and the user's own last, its classpath, and the directories that plugins generate
into.
-/

namespace JarPlan

/-- Where planning happens. -/
structure Workspace where
  /-- The project root, as an absolute path. -/
  root : Path
  roots : OutputRoots
  /-- Paths, relative to the root, that are never archived. -/
  ignored : SortedSet Path := ∅

namespace Kotlinc

/-- Stands for the directory that compiler plugins generate into, as the whole value of an option. -/
def codegenPlaceholder : String := "__codegen_dir__"

/-- An option of a compiler plugin. -/
def pluginOption (generated : Path) (e : String × String) : String :=
  e.1 ++ "=" ++ (if e.2 = codegenPlaceholder then generated.spelling else e.2)

/-- The arguments for one compiler plugin. -/
def pluginArguments (root generated : Path) (plugin : Path × SortedMap String String) : List String :=
  ("-Xplugin=" ++ (root.absolutize plugin.1).spelling) ::
    (if plugin.2.isEmpty then []
      else ["-P", ",".intercalate (plugin.2.entries.map (pluginOption generated))])

/-- The arguments for annotation processing, if the compiler does it. -/
def processingArguments (root : Path) : Option Kapt.Settings → Except PlanError (List String)
  | some settings => settings.arguments root
  | none => .ok []

def arguments (root : Path) (unit : SourceUnit) (toolchain : Toolchain) (settings : Option Kapt.Settings)
    (friends : SortedSet Path) (generated : Path) : Except PlanError (List String) := do
  let processing ← processingArguments root settings
  return Friends.argument friends
    :: toolchain.compilerPlugins.entries.flatMap (pluginArguments root (root.join generated))
    ++ processing
    ++ ["-module-name", unit.target.moduleName, "-no-stdlib", "-no-reflect"]
    ++ Javac.flag "-jvm-target" toolchain.jvmTarget
    ++ toolchain.extraKotlincArguments

/-- The run of the compiler over all sources of a unit. -/
def run (root : Path) (unit : SourceUnit) (toolchain : Toolchain) (settings : Option Kapt.Settings)
    (friends : Friends.Staged) (generated : Path) : Except PlanError KotlincRun := do
  let arguments ← arguments root unit toolchain settings friends.paths generated
  return {
    target := unit.target
    command := toolchain.kotlinc
    outputDir := unit.outputPaths.classesDir
    sources := unit.sources.toList
    sourcesList := unit.outputPaths.sourcesList
    classpath := (Classpath.compose root toolchain.extraClasspath unit.classpath
      toolchain.kotlinLibraries friends.copies).toList
    arguments := arguments
    verboseFlags := ["-verbose"]
    outputPaths := unit.outputPaths
    record := if unit.tracksUsage then some unit.outputPaths.kotlinRecord else none
    generatedDirs := generated :: (settings.map Kapt.Settings.outputs).getD [] }

end Kotlinc

end JarPlan
