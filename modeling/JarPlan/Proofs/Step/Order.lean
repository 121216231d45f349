import JarPlan.Step.Sequence
/-!
# Directories are prepared before they are written into

A row of steps that first prepares all directories and then writes has no unprepared write: whatever
directory is prepared is prepared before the first write. So it is enough to say of a written path that
some step prepares a directory above it, and the order follows.
-/

namespace JarPlan

/-- Every step that prepares a directory stands before every step that writes. -/
def PreparesFirst (steps : List Step) : Prop :=
  ∀ (i j : Nat) (first second : Step), steps[i]? = some first → steps[j]? = some second →
    first.preparedDir? ≠ none → second.writtenPaths ≠ [] → i < j

/-- Some step prepares a directory above the path. -/
def Prepared (steps : List Step) (path : Path) : Prop :=
  ∃ step ∈ steps, ∃ dir, step.preparedDir? = some dir ∧ path.startsWith dir = true

theorem Prepared.mono {steps more : List Step} {path : Path} (h : Prepared steps path)
    (hsteps : steps ⊆ more) : Prepared more path := by
  obtain ⟨step, hstep, hdir⟩ := h
  exact ⟨step, hsteps hstep, hdir⟩

/-- Some step before the one at `index` prepares a directory above the path. -/
def PreparedBefore (steps : List Step) (index : Nat) (path : Path) : Prop :=
  ∃ i < index, ∃ step dir, steps[i]? = some step ∧ step.preparedDir? = some dir ∧
    path.startsWith dir = true

/-- Steps that write nothing, and then steps that prepare nothing. -/
def IsPhased (steps : List Step) : Prop :=
  ∃ front back, steps = front ++ back ∧ (∀ step ∈ front, step.writtenPaths = []) ∧
    ∀ step ∈ back, step.preparedDir? = none

namespace IsPhased

theorem nil : IsPhased [] := ⟨[], [], rfl, by simp, by simp⟩

theorem prepend {steps more : List Step} (h : IsPhased steps)
    (hmore : ∀ step ∈ more, step.writtenPaths = []) : IsPhased (more ++ steps) := by
  obtain ⟨front, back, rfl, hfront, hback⟩ := h
  refine ⟨more ++ front, back, by rw [List.append_assoc], fun step hstep => ?_, hback⟩
  rcases List.mem_append.1 hstep with hstep | hstep
  · exact hmore step hstep
  · exact hfront step hstep

theorem append {steps more : List Step} (h : IsPhased steps)
    (hmore : ∀ step ∈ more, step.preparedDir? = none) : IsPhased (steps ++ more) := by
  obtain ⟨front, back, rfl, hfront, hback⟩ := h
  refine ⟨front, back ++ more, by rw [List.append_assoc], hfront, fun step hstep => ?_⟩
  rcases List.mem_append.1 hstep with hstep | hstep
  · exact hback step hstep
  · exact hmore step hstep

theorem preparesFirst {steps : List Step} (h : IsPhased steps) : PreparesFirst steps := by
  obtain ⟨front, back, rfl, hfront, hback⟩ := h
  intro i j a b ha hb hprepares hwrites
  -- what prepares stands in the front, what writes in the back
  have hi : i < front.length := by
    by_cases h : i < front.length
    · exact h
    · rw [List.getElem?_append_right (Nat.le_of_not_lt h)] at ha
      exact absurd (hback a (List.mem_of_getElem? ha)) hprepares
  have hj : front.length ≤ j := by
    by_cases h : front.length ≤ j
    · exact h
    · rw [List.getElem?_append_left (Nat.lt_of_not_le h)] at hb
      exact absurd (hfront b (List.mem_of_getElem? hb)) hwrites
  exact Nat.lt_of_lt_of_le hi hj

end IsPhased

section
variable {steps : List Step} (hsteps : PreparesFirst steps)
include hsteps

theorem Prepared.before {path : Path} (hpath : Prepared steps path) {index : Nat} {step : Step}
    (hstep : steps[index]? = some step) (hwritten : path ∈ step.writtenPaths) :
    PreparedBefore steps index path := by
  obtain ⟨first, hfirst, dir, hdir, hlies⟩ := hpath
  obtain ⟨i, hi⟩ := List.getElem?_of_mem hfirst
  have hlt := hsteps i index first step hi hstep (by simp [hdir]) (List.ne_nil_of_mem hwritten)
  exact ⟨i, hlt, first, dir, hi, hdir, hlies⟩

theorem isUnprepared_eq_false {index : Nat} {step : Step} (hstep : steps[index]? = some step)
    (hwrites : step.writtenPaths ≠ []) (path : Path) :
    (StepSequence.mk steps).isUnprepared index path = false := by
  have hnone : ∀ e ∈ (StepSequence.mk steps).preparations, ¬ index ≤ e.1 := by
    intro e he
    obtain ⟨⟨first, i⟩, hmem, hdir⟩ := List.mem_filterMap.1 he
    obtain ⟨dir, hprepares, rfl⟩ := Option.map_eq_some_iff.1 hdir
    have hfirst := List.mem_zipIdx_iff_getElem?.1 hmem
    have hsome := Option.ne_none_iff_exists'.2 ⟨dir, hprepares⟩
    exact Nat.not_le.2 (hsteps i index first step hfirst hstep hsome hwrites)
  rw [StepSequence.isUnprepared, Bool.and_eq_false_iff]
  left
  rw [List.any_eq_false]
  intro e he
  rw [decide_eq_true_eq]
  exact hnone e (List.mem_filter.1 he).1

theorem firstUnpreparedWrite?_eq_none : (StepSequence.mk steps).firstUnpreparedWrite? = none := by
  rw [StepSequence.firstUnpreparedWrite?, List.findSome?_eq_none_iff]
  rintro ⟨step, index⟩ hmem
  have hstep := List.mem_zipIdx_iff_getElem?.1 hmem
  rw [Option.map_eq_none_iff, List.find?_eq_none]
  intro path hpath
  rw [isUnprepared_eq_false hsteps hstep (List.ne_nil_of_mem hpath)]
  exact Bool.false_ne_true

end

end JarPlan
