import JarPlan.Javac
import JarPlan.Sorted.Map
/-!
# Toolchains

The compilers and settings a unit is built with. Every setting has a default, so the empty description
is a toolchain too; it is valid when there is a command for the Kotlin compiler and the target version,
if one is named, is not the empty text.
-/

namespace JarPlan

/-- Which compiler runs annotation processors for a unit with Kotlin sources. -/
inductive ProcessingTool where
  /-- The Kotlin compiler, by its processing plugin. -/
  | kapt
  /-- The Java compiler, in the pass that follows. -/
  | javac
deriving DecidableEq, BEq

structure Toolchain where
  kotlinc : List String := ["kotlinc"]
  /-- Runtime libraries on every Kotlin classpath. -/
  kotlinLibraries : SortedSet Path := ∅
  standardLibrary : Option Path := none
  /-- The jar of the processing plugin. -/
  processingJar : Option Path := none
  /-- Arguments that come after all others. -/
  extraKotlincArguments : List String := []
  /-- Compiler plugin jars and the options of each. -/
  compilerPlugins : SortedMap Path (SortedMap String String) := ∅
  /-- Jars whose internal declarations the unit may use. -/
  friendPaths : List Path := []
  processingTool : ProcessingTool := .kapt
  jvmTarget : Option String := none
  /-- Classpath entries given from outside the rule. -/
  extraClasspath : List Path := []
  javacOptions : JavacOptions := {}
  /-- Whether the timings of annotation processors are reported. -/
  reportsTimings : Bool := false
deriving DecidableEq, BEq

namespace Toolchain

/-- What is wrong with a toolchain; the command is looked at first. -/
inductive Fault where
  | noCommand
  | emptyJvmTarget
deriving DecidableEq

def Fault.message : Fault → String
  | noCommand => "kotlinc command must not be empty"
  | emptyJvmTarget => "jvm_target must not be empty when set"

def fault? (t : Toolchain) : Option Fault :=
  if t.kotlinc.isEmpty then some .noCommand
  else if t.jvmTarget = some "" then some .emptyJvmTarget
  else none

end Toolchain

end JarPlan
