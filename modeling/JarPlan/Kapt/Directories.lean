import JarPlan.Step.Sequence
/-!
# Directories of annotation processing

Annotation processing in the Kotlin compiler uses seven directories, which are cleaned before the
compiler runs. It writes stubs, classes, sources and Kotlin sources; what it generated is merged into
one directory and archived from there, and the archive is a source of the Java pass.
-/

namespace JarPlan.Kapt

structure Directories where
  stubs : Path
  classes : Path
  sources : Path
  /-- Where processors put Kotlin sources. -/
  kotlinSources : Path
  reports : Path
  /-- Where all that was generated is merged. -/
  merged : Path
  /-- The directory of the archive. -/
  archiveDir : Path
deriving DecidableEq

namespace Directories

/-- The directories for a target. -/
def standard (roots : OutputRoots) (t : Target) : Directories where
  stubs := roots.annotationPath t .stubs
  classes := roots.annotationPath t .processedClasses
  sources := roots.annotationPath t .processedSources
  kotlinSources := roots.annotationPath t .kotlinGenerated
  reports := roots.annotationPath t .reports
  merged := roots.mergedPath t
  archiveDir := roots.genPath t .generatedArchive

/-- The archive of generated sources. -/
def archive (d : Directories) : Path := d.archiveDir.entry "generated.src.zip"

/-- The report on the time processors took. -/
def timings (d : Directories) : Path := d.reports.entry "ap_stats.report"

/-- The steps that clean every directory. -/
def preparation (d : Directories) : List Step :=
  [d.stubs, d.classes, d.kotlinSources, d.sources, d.merged, d.archiveDir, d.reports].map .makeCleanDir

end Directories

end JarPlan.Kapt
