import JarPlan.Path.Basic
/-!
# Command line arguments

There are four commands. Each takes one value that has no name, and options, which may stand before or
after it. An option is given by a long name, with its value in the next argument or after an equals
sign, or by a letter, with its value in the next argument or right behind; letters without values may
be run together. Two dashes alone end the options. An option may be given once, unless it adds to a
list. Arguments are taken in from the left, and the first one that does not fit rejects them all.
-/

namespace JarPlan.CommandLine

inductive Format where
  | text
  | json
deriving DecidableEq

inductive Action where
  | steps (unit : Path) (config : Option Path) (root : Path) (ignored : List Path)
  | depFiles (unit : Path)
  | options (token : String)
  | stats (report : Path)
deriving DecidableEq

structure Command where
  action : Action
  format : Format
  verbose : Bool
deriving DecidableEq

/-- What the arguments ask for. -/
inductive Request where
  | run (command : Command)
  | showVersion
  | showHelp
deriving DecidableEq

/-! ### Names -/

/-- The name of a command. -/
inductive Verb where
  | steps
  | depFiles
  | options
  | stats
deriving DecidableEq

def Verb.ofName? : String → Option Verb
  | "steps" => some .steps
  | "dep-files" => some .depFiles
  | "options" => some .options
  | "stats" => some .stats
  | _ => none

/-- An option with a value. -/
inductive Key where
  | config
  | root
  | ignore
  | output
deriving DecidableEq

/-- The option of a command with a long name. -/
def Key.ofName? : Verb → String → Option Key
  | _, "output" => some .output
  | .steps, "config" => some .config
  | .steps, "root" => some .root
  | .steps, "ignore" => some .ignore
  | _, _ => none

/-- The option of a command with a letter. -/
def Key.ofLetter? : Verb → Char → Option Key
  | _, 'o' => some .output
  | .steps, 'c' => some .config
  | _, _ => none

def Format.ofName? : String → Option Format
  | "text" => some .text
  | "json" => some .json
  | _ => none

/-! ### What has been given -/

/-- The arguments of a command so far. -/
structure Given where
  verbose : Bool := false
  config : Option Path := none
  root : Option Path := none
  ignored : List Path := []
  output : Option Format := none
  value : Option String := none

namespace Given

/-- A path, which may not be the empty text. -/
def path? (value : String) : Option Path := if value.isEmpty then none else some ⟨value⟩

/-- Takes in an option and its value. -/
def set? (g : Given) (key : Key) (value : String) : Option Given :=
  match key with
  | .config => if g.config.isSome then none else (path? value).map fun p => { g with config := some p }
  | .root => if g.root.isSome then none else (path? value).map fun p => { g with root := some p }
  | .ignore => (path? value).map fun p => { g with ignored := g.ignored ++ [p] }
  | .output =>
    if g.output.isSome then none
    else (Format.ofName? value).map fun format => { g with output := some format }

def setVerbose? (g : Given) : Option Given := if g.verbose then none else some { g with verbose := true }

/-- Takes in the value that has no name; only a token may be the empty text. -/
def setValue? (g : Given) (verb : Verb) (value : String) : Option Given :=
  if g.value.isSome || (verb ≠ .options && value.isEmpty) then none
  else some { g with value := some value }

/-- The command, once all arguments are taken in. -/
def finish? (g : Given) (verb : Verb) (verbose : Bool) : Option Command := do
  let value ← g.value
  let action := match verb with
    | .steps => .steps ⟨value⟩ g.config (g.root.getD ⟨"."⟩) g.ignored
    | .depFiles => .depFiles ⟨value⟩
    | .options => .options value
    | .stats => .stats ⟨value⟩
  return ⟨action, g.output.getD .text, verbose || g.verbose⟩

end Given

/-! ### Taking in arguments -/

/-- Whether an argument is an option and not a value; a dash alone is a value. -/
def isOption (arg : String) : Bool := arg.toList.head? == some '-' && arg != "-"

/-- The name of a long option, and the value after its equals sign if there is one. -/
def long? (arg : String) : Option (String × Option String) :=
  match arg.toList with
  | '-' :: '-' :: rest =>
    let name := rest.takeWhile (· != '=')
    some (String.ofList name,
      if name.length < rest.length then some (String.ofList (rest.drop (name.length + 1))) else none)
  | _ => none

/-- What taking in one argument leads to. -/
inductive Taken where
  /-- The argument is done with. -/
  | done (given : Given)
  /-- The next argument is the value of an option. -/
  | awaits (given : Given) (key : Key)
  | help

def takeLong? (verb : Verb) (g : Given) (name : String) (value : Option String) : Option Taken :=
  match name, value with
  | "verbose", none => g.setVerbose?.map .done
  | "help", none => some .help
  | name, value => do
    let key ← Key.ofName? verb name
    match value with
    | some value => (g.set? key value).map .done
    | none => return .awaits g key

/-- Takes in a run of letters. -/
def takeLetters? (verb : Verb) (g : Given) : List Char → Option Taken
  | [] => some (.done g)
  | 'v' :: rest => do takeLetters? verb (← g.setVerbose?) rest
  | 'h' :: _ => some .help
  | letter :: rest => do
    let key ← Key.ofLetter? verb letter
    match rest with
    | [] => return .awaits g key
    | '=' :: value => (g.set? key (String.ofList value)).map .done
    | value => (g.set? key (String.ofList value)).map .done

def takeOption? (verb : Verb) (g : Given) (arg : String) : Option Taken :=
  match long? arg with
  | some (name, value) => takeLong? verb g name value
  | none => takeLetters? verb g (arg.toList.drop 1)

/-- Takes in the values that follow two dashes. -/
def takeValues? (verb : Verb) (g : Given) (args : List String) : Option Given :=
  args.foldlM (·.setValue? verb) g

/-- Takes in the arguments after the name of a command. -/
def parseCommand? (verb : Verb) (verbose : Bool) (g : Given) : List String → Option Request
  | [] => (g.finish? verb verbose).map .run
  | "--" :: rest => do return .run (← (← takeValues? verb g rest).finish? verb verbose)
  | arg :: rest =>
    if isOption arg then
      match takeOption? verb g arg, rest with
      | some (.done g), rest => parseCommand? verb verbose g rest
      | some (.awaits g key), value :: rest =>
        if isOption value then none
        else do parseCommand? verb verbose (← g.set? key value) rest
      | some .help, _ => some .showHelp
      | _, _ => none
    else do parseCommand? verb verbose (← g.setValue? verb arg) rest

/-- Takes in a run of letters before the name of a command: whether the output is to be verbose, or what
else is asked for. -/
def takeLeadingLetters? (verbose : Bool) : List Char → Option (Bool ⊕ Request)
  | [] => some (.inl verbose)
  | 'v' :: rest => if verbose then none else takeLeadingLetters? true rest
  | 'V' :: _ => some (.inr .showVersion)
  | 'h' :: _ => some (.inr .showHelp)
  | _ => none

/-- Takes in an option before the name of a command. -/
def takeLeading? (verbose : Bool) (arg : String) : Option (Bool ⊕ Request) :=
  match arg with
  | "--verbose" => if verbose then none else some (.inl true)
  | "--version" => some (.inr .showVersion)
  | "--help" => some (.inr .showHelp)
  | _ => if (long? arg).isSome then none else takeLeadingLetters? verbose (arg.toList.drop 1)

/-- Takes in all arguments; `verbose` says whether the output is to be verbose already. -/
def parseFrom? (verbose : Bool) : List String → Option Request
  | [] => none
  | arg :: rest =>
    if isOption arg then
      match takeLeading? verbose arg with
      | some (.inl verbose) => parseFrom? verbose rest
      | some (.inr request) => some request
      | none => none
    else
      match Verb.ofName? arg, arg, rest with
      | some verb, _, rest => parseCommand? verb verbose {} rest
      | none, "help", [] => some .showHelp
      | none, "help", [name] => if name = "help" || (Verb.ofName? name).isSome then some .showHelp else none
      | _, _, _ => none

/-- What the arguments ask for, unless they are rejected. -/
def parse? (args : List String) : Option Request := parseFrom? false args

end JarPlan.CommandLine
