import JarPlan.Json.Description
import JarPlan.Json.Reader
import JarPlan.Json.Writer
import JarPlan.Bytes.Sha256
import JarPlan.Step.Sequence
/-!
# Descriptions of steps

Steps are written as choices, and a sequence of them as a record with one field. The compact text of a
sequence is what its digest is taken of, so it shows every field and the spelling of every path.
-/

namespace JarPlan

instance : ToJson Path := ⟨fun p => toJson p.spelling⟩

instance : OfJson Path := ⟨fun j => (ofJson? j).map Path.mk⟩

instance : ToJson Target where
  toJson t := .record [
    ("cell_relative_base_path", toJson t.basePath),
    ("short_name", toJson t.name),
    ("flavors", toJson t.flavors)]

instance : OfJson Target where
  ofJson? j := do
    match ← j.slots? ["cell_relative_base_path", "short_name", "flavors"] with
    | [basePath, name, flavors] =>
      return { basePath := ← basePath.required?, name := ← name.required?, flavors := ← flavors.orElse? ∅ }
    | _ => none

instance : ToJson OutputPaths where
  toJson o := .record [
    ("classes_dir", toJson o.classesDir),
    ("output_jar_dir", toJson o.outputJarDir),
    ("path_to_sources_list", toJson o.sourcesList),
    ("working_directory", toJson o.workingDirectory)]

instance : OfJson OutputPaths where
  ofJson? j := do
    match ← j.slots? ["classes_dir", "output_jar_dir", "path_to_sources_list", "working_directory"] with
    | [classesDir, outputJarDir, sourcesList, workingDirectory] =>
      return {
        classesDir := ← classesDir.required?
        outputJarDir := ← outputJarDir.required?
        sourcesList := ← sourcesList.required?
        workingDirectory := ← workingDirectory.required? }
    | _ => none

def CopyMode.name : CopyMode → String
  | file => "File"
  | directory => "Directory"
  | contents => "DirectoryContentsOnly"

instance : ToJson CopyMode := ⟨fun m => toJson m.name⟩

instance : OfJson CopyMode where
  ofJson? j := do
    match ← j.plainChoice? with
    | "File" => some .file
    | "Directory" => some .directory
    | "DirectoryContentsOnly" => some .contents
    | _ => none

instance : ToJson KotlincRun where
  toJson r := .record [
    ("target", toJson r.target),
    ("kotlinc", toJson r.command),
    ("output_dir", toJson r.outputDir),
    ("sources", toJson r.sources),
    ("path_to_sources_list", toJson r.sourcesList),
    ("classpath", toJson r.classpath),
    ("extra_arguments", toJson r.arguments),
    ("verbose_flags", toJson r.verboseFlags),
    ("output_paths", toJson r.outputPaths),
    ("dep_file", toJson r.record),
    ("generated_dirs", toJson r.generatedDirs)]

instance : OfJson KotlincRun where
  ofJson? j := do
    match ← j.slots? ["target", "kotlinc", "output_dir", "sources", "path_to_sources_list", "classpath",
      "extra_arguments", "verbose_flags", "output_paths", "dep_file", "generated_dirs"] with
    | [target, command, outputDir, sources, sourcesList, classpath, arguments, verboseFlags, outputPaths,
        record, generatedDirs] =>
      return {
        target := ← target.required?
        command := ← command.required?
        outputDir := ← outputDir.required?
        sources := ← sources.required?
        sourcesList := ← sourcesList.required?
        classpath := ← classpath.required?
        arguments := ← arguments.required?
        verboseFlags := ← verboseFlags.required?
        outputPaths := ← outputPaths.required?
        record := ← record.optional?
        generatedDirs := ← generatedDirs.required? }
    | _ => none

instance : ToJson JavacRun where
  toJson r := .record [
    ("target", toJson r.target),
    ("output_dir", toJson r.outputDir),
    ("sources", toJson r.sources),
    ("path_to_sources_list", toJson r.sourcesList),
    ("classpath", toJson r.classpath),
    ("arguments", toJson r.arguments),
    ("dep_file", toJson r.record)]

instance : OfJson JavacRun where
  ofJson? j := do
    match ← j.slots? ["target", "output_dir", "sources", "path_to_sources_list", "classpath", "arguments",
      "dep_file"] with
    | [target, outputDir, sources, sourcesList, classpath, arguments, record] =>
      return {
        target := ← target.required?
        outputDir := ← outputDir.required?
        sources := ← sources.required?
        sourcesList := ← sourcesList.required?
        classpath := ← classpath.required?
        arguments := ← arguments.required?
        record := ← record.optional? }
    | _ => none

instance : ToJson Step where
  toJson
    | .makeCleanDir path => .choose "MakeCleanDir" (.record [("path", toJson path)])
    | .mkdir path => .choose "Mkdir" (.record [("path", toJson path)])
    | .copy source destination mode =>
      .choose "Copy" (.record [
        ("source", toJson source), ("destination", toJson destination), ("mode", toJson mode)])
    | .zip root output sourceDir ignored =>
      .choose "Zip" (.record [
        ("root", toJson root), ("output", toJson output), ("source_dir", toJson sourceDir),
        ("ignored", toJson ignored)])
    | .kotlinc run => .choose "Kotlinc" (toJson run)
    | .forwardTimings report target =>
      .choose "ParseProcessorStats" (.record [("report", toJson report), ("target", toJson target)])
    | .javac run => .choose "Javac" (toJson run)

/-- The step of a kind that has fields of its own. -/
def Step.ofChoice? (name : String) (fields : Json) : Option Step := do
  match name with
  | "MakeCleanDir" =>
    match ← fields.slots? ["path"] with
    | [path] => return .makeCleanDir (← path.required?)
    | _ => none
  | "Mkdir" =>
    match ← fields.slots? ["path"] with
    | [path] => return .mkdir (← path.required?)
    | _ => none
  | "Copy" =>
    match ← fields.slots? ["source", "destination", "mode"] with
    | [source, destination, mode] =>
      return .copy (← source.required?) (← destination.required?) (← mode.required?)
    | _ => none
  | "Zip" =>
    match ← fields.slots? ["root", "output", "source_dir", "ignored"] with
    | [root, output, sourceDir, ignored] =>
      return .zip (← root.required?) (← output.required?) (← sourceDir.required?) (← ignored.required?)
    | _ => none
  | "Kotlinc" => return .kotlinc (← ofJson? fields)
  | "ParseProcessorStats" =>
    match ← fields.slots? ["report", "target"] with
    | [report, target] => return .forwardTimings (← report.required?) (← target.required?)
    | _ => none
  | "Javac" => return .javac (← ofJson? fields)
  | _ => none

instance : OfJson Step where
  ofJson? j := do
    match ← j.choice? with
    | (name, some fields) => Step.ofChoice? name fields
    | (_, none) => none

instance : ToJson StepSequence := ⟨fun s => .record [("steps", toJson s.steps)]⟩

instance : OfJson StepSequence where
  ofJson? j := do
    match ← j.slots? ["steps"] with
    | [steps] => return ⟨← steps.required?⟩
    | _ => none

namespace StepSequence

/-- The compact text of a sequence. -/
def text (s : StepSequence) : String := (toJson s).compact

/-- The digits of a digest that are kept. -/
def digestLength : Nat := 20

/-- The name of a sequence in a cache: the first digits of the digest of its text. -/
def digest (s : StepSequence) : String :=
  String.ofList ((Bytes.hex (Bytes.Sha256.digest (Bytes.utf8 s.text))).toList.take digestLength)

end StepSequence

end JarPlan
