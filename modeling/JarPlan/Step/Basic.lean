import JarPlan.Layout
/-!
# Build steps

A step says what is to be done and does nothing itself. Some steps prepare a directory, some write into
paths, and the order of a sequence has to put the first before the second. `Step.describe` shows a step
the way a shell would spell it.
-/

namespace JarPlan

/-- What of the source a copy takes. -/
inductive CopyMode where
  | file
  | directory
  /-- The entries of a directory, without a level for the directory itself. -/
  | contents
deriving DecidableEq, BEq

/-- One run of the Kotlin compiler. -/
structure KotlincRun where
  target : Target
  /-- The command, as the words that come before its arguments. -/
  command : List String
  outputDir : Path
  sources : List Path
  sourcesList : Path
  classpath : List Path
  /-- The arguments in the order they are passed. -/
  arguments : List String
  verboseFlags : List String
  outputPaths : OutputPaths
  /-- Where used classes are recorded, if they are. -/
  record : Option Path
  /-- The directories that compiler plugins generate into. -/
  generatedDirs : List Path
deriving DecidableEq, BEq

/-- One run of the Java compiler. -/
structure JavacRun where
  target : Target
  outputDir : Path
  sources : List Path
  sourcesList : Path
  classpath : List Path
  arguments : List String
  record : Option Path
deriving DecidableEq, BEq

inductive Step where
  /-- Removes a directory and makes it anew. -/
  | makeCleanDir (path : Path)
  /-- Makes a directory that may be there already. -/
  | mkdir (path : Path)
  | copy (source destination : Path) (mode : CopyMode)
  /-- Archives a directory, less the paths ignored, which are relative to `root`. -/
  | zip (root output sourceDir : Path) (ignored : SortedSet Path)
  | kotlinc (run : KotlincRun)
  /-- Reads a timing report and forwards what it says. -/
  | forwardTimings (report : Path) (target : Target)
  | javac (run : JavacRun)
deriving DecidableEq, BEq

namespace Step

/-- The stable name of the kind of step. -/
def kind : Step → String
  | makeCleanDir _ => "make_clean_dir"
  | mkdir _ => "mkdir"
  | copy _ _ _ => "copy"
  | zip _ _ _ _ => "zip"
  | kotlinc _ => "kotlinc"
  | forwardTimings _ _ => "kapt_stats"
  | javac _ => "javac"

def describe : Step → String
  | makeCleanDir path => s!"rm -rf {path.spelling} && mkdir -p {path.spelling}"
  | mkdir path => s!"mkdir -p {path.spelling}"
  | copy source destination .file => s!"cp {source.spelling} {destination.spelling}"
  | copy source destination .directory => s!"cp -R {source.spelling} {destination.spelling}"
  | copy source destination .contents => s!"cp -R {source.spelling}/. {destination.spelling}"
  | zip _ output sourceDir _ => s!"zip {output.spelling} {sourceDir.spelling}"
  | kotlinc run => s!"kotlinc {run.target.label} ({run.sources.length} sources)"
  | forwardTimings report _ => s!"kapt_stats {report.spelling}"
  | javac run => s!"javac {run.target.label} ({run.sources.length} sources)"

/-- The directory a step prepares. -/
def preparedDir? : Step → Option Path
  | makeCleanDir path => some path
  | mkdir path => some path
  | _ => none

/-- The paths a step writes. -/
def writtenPaths : Step → List Path
  | makeCleanDir _ => []
  | mkdir _ => []
  | forwardTimings _ _ => []
  | copy _ destination _ => [destination]
  | zip _ output _ _ => [output]
  | kotlinc run => [run.outputDir, run.sourcesList] ++ run.record.toList ++ run.generatedDirs
  | javac run => [run.outputDir, run.sourcesList] ++ run.record.toList

end Step

end JarPlan
