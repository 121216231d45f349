import JarPlan.CommandLine.Arguments
import JarPlan.Description.Load
import JarPlan.Plan.Basic
import JarPlan.Timings
/-!
# Running commands

A command is run on the texts of the files it names and gives what is to be printed, or the reason why
it stops without output. It stops with a failure, which says what was being done and then its causes,
each in words of its own, or because a sum has no room in its word. Nothing here reads a file or prints.
-/

namespace JarPlan.CommandLine

/-- What a command may look at. -/
structure Surroundings where
  /-- The texts of files. -/
  file : Path → FileText
  /-- The value of `OutputRoots.outDirVariable`. -/
  outDir : Option String
  /-- The current directory, as an absolute path. -/
  directory : Path

/-- What a command prints. -/
structure Output where
  stdout : String := ""
  stderr : String := ""
deriving DecidableEq

/-! ### Failures -/

structure Failure where
  /-- What was being done. -/
  context : String
  causes : List String
  /-- Whether a file was read but describes nothing. -/
  isUndescriptive : Bool := false
deriving DecidableEq

namespace Failure

/-- A cause, with later lines set in below its first one. -/
def indent (margin : String) (later : String) (cause : String) : String :=
  margin ++ String.ofList (Text.replaceAll ['\n'] ('\n' :: later.toList) cause.toList)

/-- The causes below the context; several of them are numbered. -/
def renderCauses : List String → List String
  | [] => []
  | [cause] => [indent "    " "    " cause]
  | causes => causes.zipIdx.map fun e => indent s!"    {e.2}: " "       " e.1

def render (f : Failure) : String :=
  match renderCauses f.causes with
  | [] => s!"Error: {f.context}\n"
  | causes => s!"Error: {f.context}\n\nCaused by:\n" ++ String.join (causes.map (· ++ "\n"))

end Failure

/-- Why a command stops without output. -/
inductive Stop where
  | failed (failure : Failure)
  /-- Words were added whose sum is no word. -/
  | overflow
deriving DecidableEq

namespace Stop

/-- The status that the program ends with. -/
def status : Stop → UInt32
  | failed _ => 1
  | overflow => 101

def render : Stop → String
  | failed failure => failure.render
  | overflow => "attempt to add with overflow\n"

end Stop

/-! ### Words and numbers -/

/-- A time in minutes and seconds from a minute on, in seconds and hundredths from a second on, and in
milliseconds below; what is cut off is not rounded. -/
def durationText (millis : Nat) : String :=
  let seconds := millis / 1000
  if 60 ≤ seconds then s!"{seconds / 60}m {seconds % 60}s"
  else if 0 < seconds then
    let hundredths := Text.padLeft 2 '0' (Text.decimal (millis % 1000 / 10))
    s!"{seconds}.{String.ofList hundredths}s"
  else s!"{millis}ms"

def duration (millis : UInt64) : String := durationText millis.toNat

/-- The sum of two words, if it is a word. -/
def checkedAdd (a b : UInt64) : Option UInt64 :=
  if a.toNat + b.toNat < UInt64.size then some (a + b) else none

def lines (l : List String) : String := String.join (l.map (· ++ "\n"))

def printed (l : List String) : Output := { stdout := lines l }

def printedJson (j : Json) : Output := printed [j.pretty]

/-! ### Commands -/

variable (around : Surroundings)

def loadUnit (path : Path) : Except Failure SourceUnit :=
  match around.file path with
  | .error error => .error ⟨s!"Failed to read unit description: {path.spelling}", [error.message], false⟩
  | .ok text =>
    match SourceUnit.parse? text with
    | some unit => .ok unit
    | none =>
      .error ⟨s!"Failed to parse unit description: {path.spelling}", ["not a unit description"], true⟩

/-- The toolchain of a file, or the usual one. -/
def loadToolchain : Option Path → Except Failure Toolchain
  | none => .ok {}
  | some path => (Toolchain.load path (around.file path)).mapError fun error =>
    ⟨"Failed to load toolchain config", error.message :: error.cause?.toList, error matches .parse _⟩

/-- The project root as an absolute path. -/
def projectRoot (root : Path) : Path := around.directory.absolutize root

def recordLine (e : Compiler × Path) : String := s!"• {e.1.name}: {e.2.spelling}"

/-- The lines for one step; verbose output lists the arguments of the Kotlin compiler. -/
def stepLines (verbose : Bool) (index : Nat) (step : Step) : List String :=
  let number := String.ofList (Text.padLeft 2 ' ' (Text.decimal (index + 1)))
  s!"  {number}. {step.describe}" ::
    match step with
    | .kotlinc run => if verbose then run.arguments.map fun argument => s!"      → {argument}" else []
    | _ => []

def planLines (verbose : Bool) (unit : SourceUnit) (plan : Plan) : List String :=
  [s!"✓ {unit.target.label} ({plan.mode.name})",
    s!"  Hash: {plan.steps.digest}",
    s!"  Steps: {plan.steps.steps.length}",
    ""]
    ++ plan.steps.steps.zipIdx.flatMap (fun e => stepLines verbose e.2 e.1)
    ++ ["", "Dependency files:"]
    ++ plan.records.entries.map fun e => "  " ++ recordLine e

def planJson (unit : SourceUnit) (plan : Plan) : Json :=
  .record [
    ("target", toJson unit.target.label),
    ("mode", toJson plan.mode.name),
    ("hash", toJson plan.steps.digest),
    ("steps", toJson plan.steps.steps),
    ("dep_files", .array (plan.records.entries.map fun e =>
      .array [toJson e.1.name, toJson e.2.spelling]))]

def runSteps (unit : Path) (config : Option Path) (root : Path) (ignored : List Path) (format : Format)
    (verbose : Bool) : Except Failure Output := do
  let unit ← loadUnit around unit
  let toolchain ← loadToolchain around config
  let workspace : Workspace :=
    ⟨projectRoot around root, .current around.outDir, SortedSet.ofList ignored⟩
  let plan ← (Plan.make workspace unit toolchain Javac.planner).mapError fun error =>
    ⟨s!"Failed to generate steps for {unit.target.label}", error.message :: error.cause?.toList, false⟩
  match format with
  | .json => return printedJson (planJson unit plan)
  | .text => return printed (planLines verbose unit plan)

def recordsJson (records : UsageRecords) : Json :=
  .record [("files", .record (records.entries.map fun e => (e.1.name, toJson e.2)))]

def runDepFiles (unit : Path) (format : Format) : Except Failure Output := do
  let unit ← loadUnit around unit
  let records := UsageRecords.ofUnit unit
  match format with
  | .json => return printedJson (recordsJson records)
  | .text => return printed (records.entries.map recordLine)

def runOptions (token : String) (format : Format) : Except Failure Output := do
  let options ← (OptionToken.decode token).mapError fun error =>
    ⟨"Failed to decode option token", [error.message], false⟩
  match format with
  | .json => return printedJson (toJson options)
  | .text =>
    if options.isEmpty then return printed ["• No options in token"]
    else return printed (options.entries.map fun e => s!"{e.1} = {e.2}")

/-- The line for a processor. -/
def timingLine (t : Timing) : String :=
  s!"  {t.processor}: {duration t.total} (init {duration t.init}, {t.rounds.length} round(s))"

/-- The time of all processors together, added one by one. -/
def totalTime (timings : List Timing) : Option UInt64 :=
  timings.foldlM (fun sum t => checkedAdd sum t.total) 0

/-- The lines for a report: the time of all processors, then a line for each. -/
def summary (timings : List Timing) (total : String) : Output :=
  printed (s!"✓ {timings.length} processor(s), {total}" :: timings.map timingLine)

def runStats (report : Path) (format : Format) : Except Stop Output := do
  let text ← (around.file report).mapError fun error =>
    .failed ⟨s!"Failed to read report: {report.spelling}", [error.message], false⟩
  let timings ← (Timings.parse text).mapError fun error =>
    .failed ⟨s!"Failed to parse report: {report.spelling}", [error.message], false⟩
  match format with
  | .json => return printedJson (toJson timings)
  | .text =>
    if timings.isEmpty then return { stderr := lines ["⚠ Report lists no annotation processors"] }
    else
      match totalTime timings with
      | some total => return summary timings (duration total)
      | none => throw .overflow

def run (command : Command) : Except Stop Output :=
  match command.action with
  | .steps unit config root ignored =>
    (runSteps around unit config root ignored command.format command.verbose).mapError .failed
  | .depFiles unit => (runDepFiles around unit command.format).mapError .failed
  | .options token => (runOptions token command.format).mapError .failed
  | .stats report => runStats around report command.format

/-- The files that a command reads. -/
def Action.inputs : Action → List Path
  | .steps unit config _ _ => unit :: config.toList
  | .depFiles unit => [unit]
  | .options _ => []
  | .stats report => [report]

def version : String := "ktjar 0.1.0"

def help : List String := [
  "build-step generator for Kotlin and Java libraries",
  "",
  "Usage: ktjar [-v] <COMMAND>",
  "",
  "Commands:",
  "  steps [-c CONFIG] [--root ROOT] [--ignore PATH]... [-o FORMAT] <UNIT>",
  "             Generate the build steps for a compilation unit",
  "  dep-files [-o FORMAT] <UNIT>",
  "             List the dependency files a compilation unit produces",
  "  options [-o FORMAT] <TOKEN>",
  "             Decode a kapt option token",
  "  stats [-o FORMAT] <REPORT>",
  "             Summarize an annotation processing timing report",
  "",
  "Options:",
  "  -v, --verbose  Show full compiler arguments",
  "  -h, --help     Print help",
  "  -V, --version  Print version"]

end JarPlan.CommandLine
