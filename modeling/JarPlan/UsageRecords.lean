import JarPlan.SourceUnit
/-!
# Records of used classes

Each compiler that runs may write down the classes it used, and an incremental build reads that later.
A set of records says which compilers have one and where; it is made from a unit, before planning, or
from the steps of a plan, which is the set to register. A unit that does not track usage registers
nothing.
-/

namespace JarPlan

inductive Compiler where
  | java
  | kotlin
deriving DecidableEq

def Compiler.name : Compiler → String
  | java => "Java"
  | kotlin => "Kotlin"

/-- The compiler that a step runs. -/
def Step.compiler? : Step → Option Compiler
  | javac _ => some .java
  | kotlinc _ => some .kotlin
  | _ => none

/-- The records of the two compilers. -/
structure UsageRecords where
  java : Option Path := none
  kotlin : Option Path := none
deriving DecidableEq, BEq

namespace UsageRecords

/-- The record of the Java compiler, and that of the Kotlin compiler if the unit has input for it. -/
def ofUnit (u : SourceUnit) : UsageRecords where
  java := some u.outputPaths.javaRecord
  kotlin := if u.hasKotlinInput then some u.outputPaths.kotlinRecord else none

/-- The records of the compilers that the steps run. -/
def ofSteps (u : SourceUnit) (steps : List Step) : UsageRecords where
  java := if steps.any (·.compiler? = some .java) then some u.outputPaths.javaRecord else none
  kotlin := if steps.any (·.compiler? = some .kotlin) then some u.outputPaths.kotlinRecord else none

def get? (r : UsageRecords) : Compiler → Option Path
  | .java => r.java
  | .kotlin => r.kotlin

/-- The records that are there, Java first. -/
def entries (r : UsageRecords) : List (Compiler × Path) :=
  (r.java.toList.map (.java, ·)) ++ (r.kotlin.toList.map (.kotlin, ·))

def paths (r : UsageRecords) : List Path := r.entries.map Prod.snd

/-- The paths to register for the unit. -/
def registered (r : UsageRecords) (u : SourceUnit) : List Path := if u.tracksUsage then r.paths else []

end UsageRecords

end JarPlan
