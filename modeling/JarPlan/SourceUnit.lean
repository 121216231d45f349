import JarPlan.Toolchain
/-!
# Units and how they are compiled

A unit is what is compiled at one time: the sources of a target, their classpath and the places to
write. The Kotlin compiler takes part when there is a source it reads, which is a `.kt` file or an
archive of sources; it runs the annotation processors when there are any and the toolchain says so.
-/

namespace JarPlan

/-- Whether the path is that of a Kotlin file. -/
def Path.isKotlinSource (p : Path) : Bool := p.extension? == some "kt"

/-- Whether the path is that of an archive of sources. -/
def Path.isSourceArchive (p : Path) : Bool :=
  p.fileName?.any fun name => ".src.zip".toList.isSuffixOf name.toList

/-- Whether the Kotlin compiler reads the source and the Java compiler does not. -/
def Path.isKotlinInput (p : Path) : Bool := p.isKotlinSource || p.isSourceArchive

structure SourceUnit where
  target : Target
  sources : SortedSet Path
  outputPaths : OutputPaths
  classpath : SortedSet Path := ∅
  /-- Whether the compilers record the classes they use. -/
  tracksUsage : Bool := false
deriving DecidableEq, BEq

namespace SourceUnit

/-- A unit without sources that writes to the standard places. -/
def standard (t : Target) (roots : OutputRoots) : SourceUnit where
  target := t
  sources := ∅
  outputPaths := .standard t roots

def withSources (u : SourceUnit) (sources : List Path) : SourceUnit :=
  { u with sources := u.sources.insertAll sources }

def withClasspath (u : SourceUnit) (classpath : List Path) : SourceUnit :=
  { u with classpath := u.classpath.insertAll classpath }

/-- The unit with one more flavor on its target; the places to write stay. -/
def withFlavor (u : SourceUnit) (flavor : String) : SourceUnit :=
  { u with target := { u.target with flavors := u.target.flavors.insert flavor } }

def hasKotlinInput (u : SourceUnit) : Bool := u.sources.toList.any Path.isKotlinInput

end SourceUnit

/-! ### Modes -/

inductive CompileMode where
  /-- There is no Kotlin input. -/
  | javaOnly
  /-- The Kotlin compiler runs, and annotation processors in it. -/
  | kotlinWithKapt
  /-- The Kotlin compiler runs, and annotation processors are left to the Java pass. -/
  | kotlinWithoutKapt
deriving DecidableEq

namespace CompileMode

def name : CompileMode → String
  | javaOnly => "JavaOnly"
  | kotlinWithKapt => "KotlinWithKapt"
  | kotlinWithoutKapt => "KotlinWithoutKapt"

def decide (u : SourceUnit) (t : Toolchain) : CompileMode :=
  if !u.hasKotlinInput then javaOnly
  else if !t.javacOptions.processing.isEmpty && t.processingTool = .kapt then kotlinWithKapt
  else kotlinWithoutKapt

def runsKotlinc : CompileMode → Bool
  | javaOnly => false
  | _ => true

end CompileMode

/-- The options of the Java pass in a mode: what the Kotlin compiler has processed is not processed
again. -/
def JavacOptions.forMode (options : JavacOptions) : CompileMode → JavacOptions
  | .kotlinWithKapt => { options with processing := {} }
  | _ => options

end JarPlan
