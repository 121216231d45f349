import JarPlan.Step.Basic
/-!
# Step sequences

The steps that build one unit, in the order they run. A write is unprepared when some step of the
sequence prepares a directory above it and none does so before the write; `firstUnpreparedWrite?` finds
the first such write. Paths below no directory that the sequence prepares belong to someone else and are
not looked at.
-/

namespace JarPlan

structure StepSequence where
  steps : List Step := []
deriving DecidableEq, BEq

namespace StepSequence

def push (s : StepSequence) (step : Step) : StepSequence := ⟨s.steps ++ [step]⟩

def append (s : StepSequence) (steps : List Step) : StepSequence := ⟨s.steps ++ steps⟩

@[simp] theorem steps_push (s : StepSequence) (step : Step) : (s.push step).steps = s.steps ++ [step] := rfl

@[simp] theorem steps_append (s : StepSequence) (steps : List Step) :
    (s.append steps).steps = s.steps ++ steps := rfl

/-- The index of the first step of a kind. -/
def position? (s : StepSequence) (kind : String) : Option Nat := s.steps.findIdx? (·.kind == kind)

/-- The directories that steps prepare, with the indices of those steps. -/
def preparations (s : StepSequence) : List (Nat × Path) :=
  s.steps.zipIdx.filterMap fun e => e.1.preparedDir?.map fun dir => (e.2, dir)

/-- Whether a write at `index` comes too early: a directory above it is prepared, but none before. -/
def isUnprepared (s : StepSequence) (index : Nat) (written : Path) : Bool :=
  let above := s.preparations.filter fun e => written.startsWith e.2
  above.any (fun e => index ≤ e.1) && !above.any (fun e => e.1 < index)

/-- The first unprepared write, with the index of its step. -/
def firstUnpreparedWrite? (s : StepSequence) : Option (Nat × Path) :=
  s.steps.zipIdx.findSome? fun e =>
    (e.1.writtenPaths.find? (s.isUnprepared e.2)).map fun written => (e.2, written)

end StepSequence

end JarPlan
