import JarPlan.Step.Sequence
import JarPlan.Sorted.Map
/-!
# Friend jars

A unit may use the internal declarations of its friends, whose jars are named to the Kotlin compiler in
one argument with commas between them. A path that contains a comma cannot stand there, so such a jar is
copied to a directory of its own, below a name without commas, and the copy is named instead. Jars of
one name get different names for their copies, by a number in front. The directory is made only when
there is something to copy.
-/

namespace JarPlan

namespace Friends

def separator : Char := ','

/-- The text with two underscores for every separator. -/
def stripSeparator (s : String) : String :=
  String.ofList (s.toList.flatMap fun c => if c = separator then ['_', '_'] else [c])

/-- The directory for copies, with no separator in its last segment. -/
def stagingDir (dir : Path) : Path :=
  match dir.parent?, dir.fileName? with
  | some parent, some name => parent.entry (stripSeparator name)
  | _, _ => dir

/-- The names tried for a copy: the name itself and then numbered ones. -/
def candidate (name : String) : Nat → String
  | 0 => name
  | n + 1 => s!"{n + 1}_{name}"

/-- The first candidate that is not taken. There are more candidates than names taken, so one is free. -/
def freshName (taken : SortedSet String) (name : String) : String :=
  let candidates := (List.range (taken.toList.length + 1)).map (candidate name)
  (candidates.find? fun c => !taken.toList.contains c).getD name

/-- Whether a path cannot stand in the argument. -/
def needsCopy (p : Path) : Bool := p.spelling.toList.contains separator

/-- The friends of a unit as the compiler is to see them. -/
structure Staged where
  /-- The paths to name: friends as they are, and copies. -/
  paths : SortedSet Path := ∅
  /-- The copy of each friend that has one. -/
  copies : SortedMap Path Path := ∅
  /-- The names that copies have. -/
  taken : SortedSet String := ∅
  /-- The steps that make the copies. -/
  steps : List Step := []

namespace Staged

/-- Takes in a friend that is copied for the first time. -/
def addCopy (s : Staged) (dir origin : Path) : Staged :=
  let name := freshName s.taken (stripSeparator (origin.fileName?.getD ""))
  let copy := dir.entry name
  { paths := s.paths.insert copy
    copies := s.copies.insert origin copy
    taken := s.taken.insert name
    steps := s.steps ++ (if s.copies.isEmpty then [.mkdir dir] else []) ++ [.copy origin copy .file] }

/-- Takes in one friend. -/
def add (dir : Path) (s : Staged) (origin : Path) : Staged :=
  if needsCopy origin then
    match s.copies.get? origin with
    | some copy => { s with paths := s.paths.insert copy }
    | none => s.addCopy dir origin
  else { s with paths := s.paths.insert origin }

end Staged

/-- The friends of a unit, with copies in `dir` where they are needed. -/
def stage (root : Path) (friends : List Path) (dir : Path) : Staged :=
  (friends.map root.absolutize).foldl (Staged.add (root.join (stagingDir dir))) {}

/-- The compiler argument that names the friends; it is there, and empty, when there are none. -/
def argument (paths : SortedSet Path) : String :=
  if paths.isEmpty then ""
  else "-Xfriend-paths=" ++ ",".intercalate (SortedSet.ofList (paths.toList.map Path.spelling)).toList

end Friends

end JarPlan
