import JarPlan.OptionToken.Error
import JarPlan.Path.Basic
/-!
# Why no plan could be made

Each error ends the planning of a unit: there is a whole plan or none. `message` is what a user reads,
and `cause?` is the underlying error that is shown below it.
-/

namespace JarPlan

inductive PlanError where
  /-- Processors have to run in the Kotlin compiler, and the processing plugin has no jar. -/
  | missingProcessingClasspath (target : String)
  /-- Processors have to run in the Kotlin compiler, and the standard library has no jar. -/
  | missingStandardLibrary (target : String)
  | malformedParameter (parameter : String)
  /-- A template for a path segment starts with a slash. -/
  | absoluteTemplate (template : String)
  /-- A step writes below a directory that only a later step prepares. -/
  | unpreparedWrite (target : String) (index : Nat) (path : Path)
  | configuration (reason : String)
  | encoding (error : OptionToken.Error)
  /-- The planner of the Java pass refused. -/
  | primary (reason : String)
deriving DecidableEq

namespace PlanError

def message : PlanError → String
  | missingProcessingClasspath target =>
    s!"annotation processing for {target} requires an annotation processing classpath"
  | missingStandardLibrary target =>
    s!"annotation processing for {target} requires a standard library classpath"
  | malformedParameter parameter =>
    s!"malformed annotation processor parameter '{parameter}': expected key=value"
  | absoluteTemplate template =>
    s!"invalid path format '{template}': format must not start with '/'"
  | unpreparedWrite target index path =>
    s!"step {index} for {target} writes into {path.spelling} before it is prepared"
  | configuration reason => s!"invalid configuration: {reason}"
  | encoding error => s!"failed to encode compiler options: {error.message}"
  | primary reason => s!"primary compiler step generation failed: {reason}"

def cause? : PlanError → Option String
  | encoding error => some error.message
  | _ => none

end PlanError

end JarPlan
