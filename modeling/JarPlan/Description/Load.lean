import JarPlan.Description.Unit
import JarPlan.FileText
/-!
# Loading toolchains

A toolchain is read from the text of a file and then looked over, so one that loads is valid. The error
says which of the three steps failed: the file has no text, the text describes no toolchain, or the
toolchain is not valid.
-/

namespace JarPlan.Toolchain

inductive LoadError where
  | read (path : Path) (error : ReadError)
  | parse (path : Path)
  | invalid (path : Path) (fault : Fault)
deriving DecidableEq

namespace LoadError

def message : LoadError → String
  | read path error => s!"failed to read config {path.spelling}: {error.message}"
  | parse path => s!"failed to parse config {path.spelling}: not a toolchain description"
  | invalid path fault => s!"invalid config {path.spelling}: {fault.message}"

def cause? : LoadError → Option String
  | read _ error => some error.message
  | _ => none

end LoadError

/-- The toolchain that a text describes. -/
def parse? (text : String) : Option Toolchain := do ofJson? (← Json.read? text)

/-- The toolchain in the file at `path`, which reads as `file`. -/
def load (path : Path) (file : FileText) : Except LoadError Toolchain := do
  let text ← file.mapError (.read path)
  match parse? text with
  | none => .error (.parse path)
  | some toolchain =>
    match toolchain.fault? with
    | some fault => .error (.invalid path fault)
    | none => .ok toolchain

end JarPlan.Toolchain

/-- The unit that a text describes. -/
def JarPlan.SourceUnit.parse? (text : String) : Option JarPlan.SourceUnit := do
  JarPlan.ofJson? (← JarPlan.Json.read? text)
