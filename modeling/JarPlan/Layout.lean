import JarPlan.Target
/-!
# Where outputs go

All that is generated for a target lies in three trees below one output directory. In each tree a path
is the base path of the target and one more segment, made from a template, so targets of one package
share a directory and are told apart by their last segments.
-/

namespace JarPlan

/-! ### Templates in use -/

namespace Template

def stubs : Template := ⟨"__%s_stubs__", by decide⟩

def processedSources : Template := ⟨"__%s_sources__", by decide⟩

def processedClasses : Template := ⟨"__%s_classes__", by decide⟩

def reports : Template := ⟨"__%s_reports__", by decide⟩

def kotlinGenerated : Template := ⟨"__%s_kapt_generated__", by decide⟩

def pluginGenerated : Template := ⟨"__%s_kotlinc_plugin_generated__", by decide⟩

def generatedArchive : Template := ⟨"__%s_gen_sources__", by decide⟩

def friendJars : Template := ⟨"__%s_friend_path_jars__", by decide⟩

def classes : Template := ⟨"lib__%s__classes", by decide⟩

def outputJar : Template := ⟨"lib__%s__output", by decide⟩

def sourcesList : Template := ⟨"__%s__srcs", by decide⟩

def workingDirectory : Template := ⟨"lib__%s__working_directory", by decide⟩

/-- The directory that holds the merged output of annotation processing. -/
def merged (flavored : Bool) : Template := if flavored then ⟨"%s", by decide⟩ else ⟨"%s__", by decide⟩

end Template

/-! ### Roots -/

/-- The three trees of generated output. -/
structure OutputRoots where
  /-- What is kept: jars, lists and archives. -/
  gen : Path
  /-- What compiler plugins generate. -/
  annotation : Path
  /-- Class files, and whatever else a compilation needs on the way. -/
  scratch : Path
deriving DecidableEq

namespace OutputRoots

/-- The trees below an output directory. -/
def below (out : Path) : OutputRoots := ⟨out.entry "gen", out.entry "annotation", out.entry "bin"⟩

/-- The environment variable that names the output directory. -/
def outDirVariable : String := "KTJAR_OUT_DIR"

/-- The trees for a value of `outDirVariable`, which may be unset. -/
def current (value : Option String) : OutputRoots := below ⟨value.getD "buck-out"⟩

/-- The path in the tree `root` for a target and a template. -/
def pathIn (root : Path) (t : Target) (template : Template) : Path :=
  (root.join t.base).entry (t.segment template)

def genPath (roots : OutputRoots) (t : Target) (template : Template) : Path :=
  pathIn roots.gen t template

def annotationPath (roots : OutputRoots) (t : Target) (template : Template) : Path :=
  pathIn roots.annotation t template

def scratchPath (roots : OutputRoots) (t : Target) (template : Template) : Path :=
  pathIn roots.scratch t template

/-- Where the output of annotation processing is merged before it is archived. -/
def mergedPath (roots : OutputRoots) (t : Target) : Path :=
  (roots.genPath t (.merged t.isFlavored)).entry "__generated__"

end OutputRoots

/-! ### Outputs of a unit -/

/-- Where the compilers of one unit write. -/
structure OutputPaths where
  classesDir : Path
  outputJarDir : Path
  sourcesList : Path
  workingDirectory : Path
deriving DecidableEq, BEq

namespace OutputPaths

/-- The standard places for a target. -/
def standard (t : Target) (roots : OutputRoots) : OutputPaths where
  classesDir := roots.scratchPath t .classes
  outputJarDir := roots.genPath t .outputJar
  sourcesList := roots.genPath t .sourcesList
  workingDirectory := roots.genPath t .workingDirectory

/-- Where the Java compiler records the classes it used. -/
def javaRecord (o : OutputPaths) : Path := o.outputJarDir.entry "used-classes.json"

/-- Where the Kotlin compiler records the classes it used. -/
def kotlinRecord (o : OutputPaths) : Path := o.outputJarDir.entry "kotlin-used-classes.json"

end OutputPaths

end JarPlan
