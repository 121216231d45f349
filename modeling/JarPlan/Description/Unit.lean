import JarPlan.Description.Step
import JarPlan.SourceUnit
/-!
# Descriptions of units and toolchains

What is read from the files a user writes. A unit has to name its target, its sources and its places to
write; a toolchain may leave out everything.
-/

namespace JarPlan

instance : ToJson ProcessorPlugin where
  toJson p := .record [("processor_names", toJson p.processors), ("classpath", toJson p.classpath)]

instance : OfJson ProcessorPlugin where
  ofJson? j := do
    match ← j.slots? ["processor_names", "classpath"] with
    | [processors, classpath] =>
      return { processors := ← processors.required?, classpath := ← classpath.required? }
    | _ => none

instance : ToJson Processing where
  toJson p := .record [("plugins", toJson p.plugins), ("parameters", toJson p.parameters)]

instance : OfJson Processing where
  ofJson? j := do
    match ← j.slots? ["plugins", "parameters"] with
    | [plugins, parameters] =>
      return { plugins := ← plugins.orElse? [], parameters := ← parameters.orElse? ∅ }
    | _ => none

instance : ToJson JavacOptions where
  toJson o := .record [
    ("source_level", toJson o.sourceLevel),
    ("target_level", toJson o.targetLevel),
    ("annotation_processors", toJson o.processing),
    ("extra_arguments", toJson o.extraArguments)]

instance : OfJson JavacOptions where
  ofJson? j := do
    match ← j.slots? ["source_level", "target_level", "annotation_processors", "extra_arguments"] with
    | [sourceLevel, targetLevel, processing, extraArguments] =>
      return {
        sourceLevel := ← sourceLevel.orElse? none
        targetLevel := ← targetLevel.orElse? none
        processing := ← processing.orElse? {}
        extraArguments := ← extraArguments.orElse? [] }
    | _ => none

instance : ToJson JavaInput where
  toJson i := .record [
    ("sources", toJson i.sources),
    ("classpath", toJson i.classpath),
    ("output_paths", toJson i.outputPaths),
    ("track_class_usage", toJson i.tracksUsage)]

instance : OfJson JavaInput where
  ofJson? j := do
    match ← j.slots? ["sources", "classpath", "output_paths", "track_class_usage"] with
    | [sources, classpath, outputPaths, tracksUsage] =>
      return {
        sources := ← sources.required?
        classpath := ← classpath.required?
        outputPaths := ← outputPaths.required?
        tracksUsage := ← tracksUsage.required? }
    | _ => none

def ProcessingTool.name : ProcessingTool → String
  | kapt => "kapt"
  | javac => "javac"

instance : ToJson ProcessingTool := ⟨fun t => toJson t.name⟩

instance : OfJson ProcessingTool where
  ofJson? j := do
    match ← j.plainChoice? with
    | "kapt" => some .kapt
    | "javac" => some .javac
    | _ => none

instance : ToJson (SortedMap Path (SortedMap String String)) := ⟨Json.ofMap Path.spelling⟩

instance : OfJson (SortedMap Path (SortedMap String String)) := ⟨Json.toMap? Path.mk⟩

instance : ToJson Toolchain where
  toJson t := .record [
    ("kotlinc", toJson t.kotlinc),
    ("kotlin_home_libraries", toJson t.kotlinLibraries),
    ("standard_library_classpath", toJson t.standardLibrary),
    ("annotation_processing_classpath", toJson t.processingJar),
    ("extra_kotlinc_arguments", toJson t.extraKotlincArguments),
    ("kotlin_compiler_plugins", toJson t.compilerPlugins),
    ("friend_paths", toJson t.friendPaths),
    ("annotation_processing_tool", toJson t.processingTool),
    ("jvm_target", toJson t.jvmTarget),
    ("extra_classpath", toJson t.extraClasspath),
    ("javac_options", toJson t.javacOptions),
    ("generate_annotation_processing_stats", toJson t.reportsTimings)]

instance : OfJson Toolchain where
  ofJson? j := do
    match ← j.slots? ["kotlinc", "kotlin_home_libraries", "standard_library_classpath",
      "annotation_processing_classpath", "extra_kotlinc_arguments", "kotlin_compiler_plugins",
      "friend_paths", "annotation_processing_tool", "jvm_target", "extra_classpath", "javac_options",
      "generate_annotation_processing_stats"] with
    | [kotlinc, kotlinLibraries, standardLibrary, processingJar, extraKotlincArguments, compilerPlugins,
        friendPaths, processingTool, jvmTarget, extraClasspath, javacOptions, reportsTimings] =>
      let usual : Toolchain := {}
      return {
        kotlinc := ← kotlinc.orElse? usual.kotlinc
        kotlinLibraries := ← kotlinLibraries.orElse? usual.kotlinLibraries
        standardLibrary := ← standardLibrary.orElse? usual.standardLibrary
        processingJar := ← processingJar.orElse? usual.processingJar
        extraKotlincArguments := ← extraKotlincArguments.orElse? usual.extraKotlincArguments
        compilerPlugins := ← compilerPlugins.orElse? usual.compilerPlugins
        friendPaths := ← friendPaths.orElse? usual.friendPaths
        processingTool := ← processingTool.orElse? usual.processingTool
        jvmTarget := ← jvmTarget.orElse? usual.jvmTarget
        extraClasspath := ← extraClasspath.orElse? usual.extraClasspath
        javacOptions := ← javacOptions.orElse? usual.javacOptions
        reportsTimings := ← reportsTimings.orElse? usual.reportsTimings }
    | _ => none

instance : ToJson SourceUnit where
  toJson u := .record [
    ("target", toJson u.target),
    ("sources", toJson u.sources),
    ("output_paths", toJson u.outputPaths),
    ("classpath", toJson u.classpath),
    ("track_class_usage", toJson u.tracksUsage)]

instance : OfJson SourceUnit where
  ofJson? j := do
    match ← j.slots? ["target", "sources", "output_paths", "classpath", "track_class_usage"] with
    | [target, sources, outputPaths, classpath, tracksUsage] =>
      return {
        target := ← target.required?
        sources := ← sources.required?
        outputPaths := ← outputPaths.required?
        classpath := ← classpath.orElse? ∅
        tracksUsage := ← tracksUsage.orElse? false }
    | _ => none

end JarPlan
