import JarPlan.FileText
import JarPlan.Json.Description
import JarPlan.Description.Step
import JarPlan.Text.Blank
import JarPlan.Text.Decimal
import JarPlan.Text.Split
/-!
# Timing reports

After a run with reporting on, the processing plugin leaves a text with a line for each processor: how
long it took in all, at its start, and in each round. A line says how many rounds there were, and the
line is malformed when it lists another number of them. Lines without a total, such as the heading, are
skipped. `forward` turns a report into one event for the build; a report that is not there means that no
processor ran.
-/

namespace JarPlan

/-- How long one processor took, in milliseconds. -/
structure Timing where
  processor : String
  total : UInt64
  init : UInt64
  rounds : List UInt64
deriving DecidableEq

instance : ToJson UInt64 := ⟨fun n => .ofNat n.toNat⟩

instance : ToJson Timing where
  toJson t := .record [
    ("processor", toJson t.processor),
    ("total_ms", toJson t.total),
    ("init_ms", toJson t.init),
    ("rounds_ms", toJson t.rounds)]

namespace Timings

inductive ReportError where
  | read (path : Path) (error : ReadError)
  | malformed (line : Nat) (content : String)
deriving DecidableEq

def ReportError.message : ReportError → String
  | read path error => s!"failed to read report {path.spelling}: {error.message}"
  | malformed line content => s!"malformed report line {line}: {content}"

/-! ### Reading -/

/-- A number of milliseconds, with its unit. -/
def readMillis? (s : List Char) : Option UInt64 := do
  let number ← Text.dropTail? "ms".toList (Text.trim Text.isBlank s)
  Text.readWord? (Text.trim Text.isBlank number)

/-- The rounds of a line: their number, the first one, and the others in the parts that follow. -/
def readRounds? : List (List Char) → Option (List UInt64)
  | [] => some []
  | first :: others => do
    let (count, round) ← Text.splitAt? " round(s): ".toList first
    let count ← Text.readWord? (Text.trim Text.isBlank count)
    let rounds ← (round :: others).mapM readMillis?
    if rounds.length = count.toNat then some rounds else none

/-- The timing that a line gives for a processor, after its name. -/
def readTiming? (processor rest : List Char) : Option Timing :=
  match Text.splitAll ", ".toList rest with
  | total :: init :: rounds => do
    let total ← readMillis? total
    let init ← readMillis? (← Text.dropLead? "init: ".toList init)
    let rounds ← readRounds? rounds
    return ⟨String.ofList (Text.trim Text.isBlank processor), total, init, rounds⟩
  | _ => none

/-- What a trimmed line gives: a timing, or nothing where the line has no total. -/
def readLine (number : Nat) (line : List Char) : Except ReportError (Option Timing) :=
  match Text.splitAt? ": total: ".toList line with
  | none => .ok none
  | some (processor, rest) =>
    match readTiming? processor rest with
    | some timing => .ok (some timing)
    | none => .error (.malformed number (String.ofList line))

/-- The timings of a report, in the order of its lines. -/
def parse (report : String) : Except ReportError (List Timing) := do
  let timings ← (Text.lines report.toList).zipIdx.mapM fun e =>
    readLine (e.2 + 1) (Text.trim Text.isBlank e.1)
  return timings.filterMap id

/-! ### Events -/

/-- The event that tells the build how long the processors of a target took. -/
structure Event where
  target : Target
  report : Path
  timings : List Timing
deriving DecidableEq

instance : ToJson Event where
  toJson e := .choose "AnnotationProcessingTimings" (.record [
    ("target", toJson e.target), ("report", toJson e.report), ("timings", toJson e.timings)])

/-- The event for a report, if there is one to post. -/
def forward (report : Path) (target : Target) : FileText → Except ReportError (Option Event)
  | .ok text => (parse text).map fun timings => some ⟨target, report, timings⟩
  | .error .notFound => .ok none
  | .error error => .error (.read report error)

end Timings

end JarPlan
