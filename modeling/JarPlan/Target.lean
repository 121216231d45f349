import JarPlan.Plan.Error
import JarPlan.Path.Resolve
import JarPlan.Sorted.Set
import JarPlan.Text.Split
/-!
# Targets

A target is a library or test in some directory of the project, in a number of flavors. Its name with
its flavors, `lib#abi,src`, goes into the last segment of every path generated for it: a template such
as `__%s_stubs__` has that name put in for each `%s`. A template never starts with a slash, so a path
made with one stays below the directory it is made for.
-/

namespace JarPlan

/-- A pattern for the last segment of a generated path. -/
structure Template where
  text : String
  relative : text.toList.head? ≠ some '/'

namespace Template

def ofString (text : String) : Except PlanError Template :=
  if h : text.toList.head? = some '/' then .error (.absoluteTemplate text) else .ok ⟨text, h⟩

end Template

structure Target where
  /-- The directory of the target, as the build file gives it. -/
  basePath : String
  name : String
  flavors : SortedSet String := ∅
deriving DecidableEq, BEq

namespace Target

def isFlavored (t : Target) : Bool := !t.flavors.isEmpty

/-- The base path without slashes at its ends. -/
def trimmedBase (t : Target) : String := String.ofList (Text.trim (· == '/') t.basePath.toList)

def base (t : Target) : Path := ⟨t.trimmedBase⟩

/-- The name, and the flavors behind it where there are any. -/
def flavoredName (t : Target) : String :=
  if t.isFlavored then t.name ++ "#" ++ ",".intercalate t.flavors.toList else t.name

/-- The name of the Kotlin module: the segments of the base path and the name, with dots between. -/
def moduleName (t : Target) : String :=
  if t.trimmedBase.isEmpty then t.name
  else String.ofList (t.trimmedBase.toList.map fun c => if c = '/' then '.' else c) ++ "." ++ t.name

/-- The build target as users write it. -/
def label (t : Target) : String := "//" ++ t.trimmedBase ++ ":" ++ t.flavoredName

/-- The last segment of a path generated for the target. -/
def segment (t : Target) (template : Template) : String :=
  String.ofList (Text.replaceAll ['%', 's'] t.flavoredName.toList template.text.toList)

end Target

end JarPlan
