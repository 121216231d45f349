import JarPlan.Proofs.Lists
import JarPlan.Proofs.Step.Order
import Mathlib.Data.Finset.Max
/-!
# What the check of the order finds

A write is early when some step prepares a directory above the path and none does so before the write. The
check finds the first early write, by the index of its step and then by its place among the writes of this
step, and it finds nothing only where there is none.

Directories may be prepared inside each other, and then one of them is above a path without being the one it
is written into, which is the innermost. The check asks for any of them. So where it finds nothing a write may
still come before its own directory, as long as an outer one is there; where inner directories are never
prepared after outer ones, this cannot happen.
-/

namespace JarPlan

/-- The step at `index` writes the path, at `position` among its writes. -/
def WritesAt (steps : List Step) (index position : Nat) (path : Path) : Prop :=
  ∃ step, steps[index]? = some step ∧ step.writtenPaths[position]? = some path

/-- A directory above the path is prepared, but none before the step at `index`. -/
def IsEarly (steps : List Step) (index : Nat) (path : Path) : Prop :=
  Prepared steps path ∧ ¬ PreparedBefore steps index path

/-- The write is early and none before it is, by the index of its step and then by its position there. -/
structure IsFirstEarly (steps : List Step) (index position : Nat) (path : Path) : Prop where
  written : WritesAt steps index position path
  early : IsEarly steps index path
  first : ∀ index' position' path', WritesAt steps index' position' path' →
    index' < index ∨ index' = index ∧ position' < position → ¬ IsEarly steps index' path'

/-- Of two first ones neither comes before the other. -/
theorem IsFirstEarly.eq {steps : List Step} {index index' position position' : Nat} {path path' : Path}
    (h : IsFirstEarly steps index position path) (h' : IsFirstEarly steps index' position' path') :
    index = index' ∧ path = path' := by
  have hle : ¬ (index' < index ∨ index' = index ∧ position' < position) :=
    fun hlt => h.first _ _ _ h'.written hlt h'.early
  have hge : ¬ (index < index' ∨ index = index' ∧ position < position') :=
    fun hlt => h'.first _ _ _ h.written hlt h.early
  obtain rfl : index = index' := by omega
  obtain rfl : position = position' := by omega
  obtain ⟨step, hstep, hpath⟩ := h.written
  obtain ⟨step', hstep', hpath'⟩ := h'.written
  obtain rfl : step = step' := Option.some.inj (hstep.symm.trans hstep')
  exact ⟨rfl, Option.some.inj (hpath.symm.trans hpath')⟩

theorem prepared_iff {steps : List Step} {path : Path} : Prepared steps path ↔
    ∃ (i : Nat) (step : Step) (dir : Path), steps[i]? = some step ∧ step.preparedDir? = some dir ∧
      path.startsWith dir = true := by
  constructor
  · rintro ⟨step, hstep, dir, hdir, habove⟩
    obtain ⟨i, hi⟩ := List.getElem?_of_mem hstep
    exact ⟨i, step, dir, hi, hdir, habove⟩
  · rintro ⟨i, step, dir, hi, hdir, habove⟩
    exact ⟨step, List.mem_of_getElem? hi, dir, hdir, habove⟩

theorem PreparedBefore.prepared {steps : List Step} {index : Nat} {path : Path}
    (h : PreparedBefore steps index path) : Prepared steps path := by
  obtain ⟨i, -, step, dir, hi, hdir, habove⟩ := h
  exact prepared_iff.2 ⟨i, step, dir, hi, hdir, habove⟩

namespace StepSequence

/-! ### One write -/

theorem mem_preparations_iff {s : StepSequence} {i : Nat} {dir : Path} :
    (i, dir) ∈ s.preparations ↔ ∃ step, s.steps[i]? = some step ∧ step.preparedDir? = some dir := by
  rw [preparations, List.mem_filterMap]
  constructor
  · rintro ⟨⟨step, j⟩, hmem, hdir⟩
    obtain ⟨dir', hprepares, heq⟩ := Option.map_eq_some_iff.1 hdir
    cases heq
    exact ⟨step, List.mem_zipIdx_iff_getElem?.1 hmem, hprepares⟩
  · rintro ⟨step, hstep, hprepares⟩
    exact ⟨(step, i), List.mem_zipIdx_iff_getElem?.2 hstep, Option.map_eq_some_iff.2 ⟨dir, hprepares, rfl⟩⟩

theorem any_above_iff {s : StepSequence} {path : Path} {p : Nat × Path → Bool} :
    ((s.preparations.filter fun e => path.startsWith e.2).any p) = true ↔
      ∃ i step dir, s.steps[i]? = some step ∧ step.preparedDir? = some dir ∧ path.startsWith dir = true ∧
        p (i, dir) = true := by
  simp only [List.any_eq_true, List.mem_filter]
  constructor
  · rintro ⟨⟨i, dir⟩, ⟨hmem, habove⟩, hp⟩
    obtain ⟨step, hstep, hdir⟩ := mem_preparations_iff.1 hmem
    exact ⟨i, step, dir, hstep, hdir, habove, hp⟩
  · rintro ⟨i, step, dir, hstep, hdir, habove, hp⟩
    exact ⟨(i, dir), ⟨mem_preparations_iff.2 ⟨step, hstep, hdir⟩, habove⟩, hp⟩

theorem isUnprepared_iff {s : StepSequence} {index : Nat} {path : Path} :
    s.isUnprepared index path = true ↔ IsEarly s.steps index path := by
  have hbefore : ((s.preparations.filter fun e => path.startsWith e.2).any fun e => e.1 < index) = true ↔
      PreparedBefore s.steps index path := by
    rw [any_above_iff]
    constructor
    · rintro ⟨i, step, dir, hstep, hdir, habove, hlt⟩
      exact ⟨i, of_decide_eq_true hlt, step, dir, hstep, hdir, habove⟩
    · rintro ⟨i, hlt, step, dir, hstep, hdir, habove⟩
      exact ⟨i, step, dir, hstep, hdir, habove, decide_eq_true hlt⟩
  rw [isUnprepared, Bool.and_eq_true, Bool.not_eq_true', ← Bool.not_eq_true, hbefore, IsEarly]
  -- with none before, the one that there is comes later
  refine and_congr_left fun hnone => ?_
  rw [any_above_iff, prepared_iff]
  constructor
  · rintro ⟨i, step, dir, hstep, hdir, habove, -⟩
    exact ⟨i, step, dir, hstep, hdir, habove⟩
  · rintro ⟨i, step, dir, hstep, hdir, habove⟩
    refine ⟨i, step, dir, hstep, hdir, habove, decide_eq_true (Nat.le_of_not_lt fun hlt => ?_)⟩
    exact hnone ⟨i, hlt, step, dir, hstep, hdir, habove⟩

/-! ### The first one -/

theorem firstUnpreparedWrite?_eq_none_iff (s : StepSequence) : s.firstUnpreparedWrite? = none ↔
    ∀ index position path, WritesAt s.steps index position path → ¬ IsEarly s.steps index path := by
  simp only [firstUnpreparedWrite?, List.findSome?_eq_none_iff, Option.map_eq_none_iff, List.find?_eq_none]
  constructor
  · rintro h index position path ⟨step, hstep, hpath⟩ hearly
    exact h (step, index) (List.mem_zipIdx_iff_getElem?.2 hstep) path (List.mem_of_getElem? hpath)
      (isUnprepared_iff.2 hearly)
  · rintro h ⟨step, index⟩ hmem path hpath hunprepared
    obtain ⟨position, hposition⟩ := List.getElem?_of_mem hpath
    exact h index position path ⟨step, List.mem_zipIdx_iff_getElem?.1 hmem, hposition⟩
      (isUnprepared_iff.1 hunprepared)

theorem exists_isFirstEarly {s : StepSequence} {index : Nat} {path : Path}
    (h : s.firstUnpreparedWrite? = some (index, path)) : ∃ position, IsFirstEarly s.steps index position path := by
  obtain ⟨i, step, hstep, hfound, hbefore⟩ := findSome?_zipIdx_eq_some h
  obtain ⟨found, hfind, heq⟩ := Option.map_eq_some_iff.1 hfound
  obtain ⟨rfl, rfl⟩ := Prod.mk.inj heq
  obtain ⟨hearly, position, hposition, hpath, hfirst⟩ := List.find?_eq_some_iff_getElem.1 hfind
  refine ⟨position, ⟨step, hstep, hpath ▸ List.getElem?_eq_getElem hposition⟩, isUnprepared_iff.1 hearly, ?_⟩
  rintro index' position' path' ⟨other, hother, hpath'⟩ hlt
  rw [← isUnprepared_iff]
  rcases hlt with hlt | ⟨rfl, hlt⟩
  · have hnone := hbefore index' hlt other hother
    rw [Option.map_eq_none_iff, List.find?_eq_none] at hnone
    exact hnone path' (List.mem_of_getElem? hpath')
  · obtain rfl : step = other := Option.some.inj (hstep.symm.trans hother)
    obtain ⟨hbound, rfl⟩ := List.getElem?_eq_some_iff.1 hpath'
    simpa using hfirst position' hlt

theorem firstUnpreparedWrite?_eq_some_iff (s : StepSequence) (index : Nat) (path : Path) :
    s.firstUnpreparedWrite? = some (index, path) ↔ ∃ position, IsFirstEarly s.steps index position path := by
  refine ⟨exists_isFirstEarly, fun ⟨position, h⟩ => ?_⟩
  cases hfound : s.firstUnpreparedWrite? with
  | none =>
    exact absurd h.early ((firstUnpreparedWrite?_eq_none_iff s).1 hfound index position path h.written)
  | some found =>
    obtain ⟨index', path'⟩ := found
    obtain ⟨position', h'⟩ := exists_isFirstEarly hfound
    obtain ⟨rfl, rfl⟩ := h'.eq h
    rfl

theorem firstUnpreparedWrite?_append {s : StepSequence} {more : List Step}
    (hmore : ∀ step ∈ more, step.preparedDir? = none) {early : Nat × Path}
    (h : s.firstUnpreparedWrite? = some early) : (s.append more).firstUnpreparedWrite? = some early := by
  have hpreparations : (s.append more).preparations = s.preparations := by
    rw [preparations, steps_append, List.zipIdx_append, List.filterMap_append, ← preparations,
      List.append_right_eq_self, List.filterMap_eq_nil_iff]
    rintro ⟨step, i⟩ hmem
    rw [hmore step (List.fst_mem_of_mem_zipIdx hmem), Option.map_none]
  have hunprepared : (s.append more).isUnprepared = s.isUnprepared := by
    funext index path
    rw [isUnprepared, hpreparations, isUnprepared]
  rw [firstUnpreparedWrite?, hunprepared, steps_append, List.zipIdx_append, List.findSome?_append,
    ← firstUnpreparedWrite?, h, Option.some_or]

/-- The check finds the first early write: no step before has one, and neither has the step itself before it.
It finds nothing exactly where there is none. Steps behind it that prepare nothing do not change what is found. -/
theorem finds_first_early_write (s : StepSequence) :
    (∀ index path, s.firstUnpreparedWrite? = some (index, path) ↔
      ∃ position, IsFirstEarly s.steps index position path) ∧
    (s.firstUnpreparedWrite? = none ↔
      ∀ index position path, WritesAt s.steps index position path → ¬ IsEarly s.steps index path) ∧
    ∀ more : List Step, (∀ step ∈ more, step.preparedDir? = none) → ∀ early,
      s.firstUnpreparedWrite? = some early → (s.append more).firstUnpreparedWrite? = some early :=
  ⟨firstUnpreparedWrite?_eq_some_iff s, firstUnpreparedWrite?_eq_none_iff s,
    fun _ hmore _ => firstUnpreparedWrite?_append hmore⟩

/-- A copy into a directory that is made only behind it. -/
def misordered : StepSequence where
  steps := [.copy ⟨"out/src"⟩ ⟨"out/gen/nested"⟩ .contents, .makeCleanDir ⟨"out/gen"⟩]

theorem misordered_write_found :
    misordered.firstUnpreparedWrite? = some (0, ⟨"out/gen/nested"⟩) ∧
      (misordered.append [.copy ⟨"a"⟩ ⟨"b"⟩ .file]).firstUnpreparedWrite? = some (0, ⟨"out/gen/nested"⟩) := by
  obtain ⟨-, -, happend⟩ := finds_first_early_write misordered
  have hfound : misordered.firstUnpreparedWrite? = some (0, ⟨"out/gen/nested"⟩) := by decide +kernel
  exact ⟨hfound, happend _ (by decide) _ hfound⟩

end StepSequence

/-! ### Directories inside each other -/

/-- The innermost of the directories above the path that the steps prepare. -/
structure IsInnermost (steps : List Step) (path dir : Path) : Prop where
  prepared : ∃ step ∈ steps, step.preparedDir? = some dir
  above : path.startsWith dir = true
  innermost : ∀ step ∈ steps, ∀ other, step.preparedDir? = some other → path.startsWith other = true →
    dir.startsWith other = true

/-- Some step before the one at `index` prepares the directory, in some spelling. -/
def MadeBefore (steps : List Step) (index : Nat) (dir : Path) : Prop :=
  ∃ i < index, ∃ step made, steps[i]? = some step ∧ step.preparedDir? = some made ∧ (made == dir) = true

/-- Every write below directories that the steps prepare finds the innermost of them made. -/
def WritesIntoMade (steps : List Step) : Prop :=
  ∀ index position path dir, WritesAt steps index position path → IsInnermost steps path dir →
    MadeBefore steps index dir

/-- Of several prepared directories above a path one is the innermost, since they are all parts of one row. -/
theorem Prepared.exists_innermost {steps : List Step} {path : Path} (h : Prepared steps path) :
    ∃ dir, IsInnermost steps path dir := by
  obtain ⟨first, hfirst, dir, hdir, habove⟩ := h
  have hmem {other : Path} : other ∈ (steps.filterMap Step.preparedDir?).filter path.startsWith ↔
      (∃ step ∈ steps, step.preparedDir? = some other) ∧ path.startsWith other = true := by
    rw [List.mem_filter, List.mem_filterMap]
  have hnonempty : ((steps.filterMap Step.preparedDir?).filter path.startsWith).toFinset.Nonempty :=
    ⟨dir, List.mem_toFinset.2 (hmem.2 ⟨⟨first, hfirst, hdir⟩, habove⟩)⟩
  obtain ⟨inner, hinner, hlongest⟩ := Finset.exists_max_image _ (fun dir => dir.components.length) hnonempty
  obtain ⟨hprepared, habove⟩ := hmem.1 (List.mem_toFinset.1 hinner)
  refine ⟨inner, hprepared, habove, fun step hstep other hother hlies => ?_⟩
  have hle := hlongest other (List.mem_toFinset.2 (hmem.2 ⟨⟨step, hstep, hother⟩, hlies⟩))
  exact List.isPrefixOf_iff_prefix.2
    (List.prefix_of_prefix_length_le (List.isPrefixOf_iff_prefix.1 hlies) (List.isPrefixOf_iff_prefix.1 habove) hle)

theorem MadeBefore.preparedBefore {steps : List Step} {index : Nat} {path dir : Path}
    (h : MadeBefore steps index dir) (habove : path.startsWith dir = true) : PreparedBefore steps index path := by
  obtain ⟨i, hlt, step, made, hstep, hmade, hmatch⟩ := h
  refine ⟨i, hlt, step, made, hstep, hmade, ?_⟩
  rw [Path.startsWith, Path.beq_iff.1 hmatch]
  exact habove

theorem MadeBefore.mono {steps : List Step} {index later : Nat} {dir : Path} (h : MadeBefore steps index dir)
    (hle : index ≤ later) : MadeBefore steps later dir := by
  obtain ⟨i, hlt, hmade⟩ := h
  exact ⟨i, Nat.lt_of_lt_of_le hlt hle, hmade⟩

/-- Where all directories are prepared before the first write, the innermost ones are too. -/
theorem PreparesFirst.writesIntoMade {steps : List Step} (h : PreparesFirst steps) : WritesIntoMade steps := by
  rintro index position path dir ⟨step, hstep, hpath⟩ hinner
  obtain ⟨other, hother, hdir⟩ := hinner.prepared
  obtain ⟨i, hi⟩ := List.getElem?_of_mem hother
  have hlt := h i index other step hi hstep (by simp [hdir]) (List.ne_nil_of_mem (List.mem_of_getElem? hpath))
  exact ⟨i, hlt, other, dir, hi, hdir, Path.beq_iff.2 rfl⟩

/-- When a directory is prepared, those inside it are, or have been before. -/
def InnerFirst (steps : List Step) : Prop :=
  ∀ (i : Nat) (step : Step) (outer : Path), steps[i]? = some step → step.preparedDir? = some outer →
    ∀ other ∈ steps, ∀ inner, other.preparedDir? = some inner → inner.startsWith outer = true →
      MadeBefore steps (i + 1) inner

namespace StepSequence

theorem writesIntoMade_iff (s : StepSequence) : WritesIntoMade s.steps ↔ s.firstUnpreparedWrite? = none ∧
    ∀ index position path dir, WritesAt s.steps index position path → IsInnermost s.steps path dir →
      PreparedBefore s.steps index path → MadeBefore s.steps index dir := by
  rw [firstUnpreparedWrite?_eq_none_iff]
  constructor
  · intro h
    refine ⟨fun index position path hwrite hearly => ?_, fun index position path dir hwrite hinner _ => ?_⟩
    · obtain ⟨dir, hinner⟩ := hearly.1.exists_innermost
      exact hearly.2 ((h index position path dir hwrite hinner).preparedBefore hinner.above)
    · exact h index position path dir hwrite hinner
  · rintro ⟨hnone, hnested⟩ index position path dir hwrite hinner
    apply hnested index position path dir hwrite hinner
    obtain ⟨step, hstep, hdir⟩ := hinner.prepared
    by_contra hbefore
    exact hnone index position path hwrite ⟨⟨step, hstep, dir, hdir, hinner.above⟩, hbefore⟩

/-- Every write finds the innermost directory above it made exactly when the check finds nothing and no write
finds only an outer directory made. That the check finds nothing is enough where inner directories are never
prepared after outer ones, and nothing is to be checked where all of them are prepared before the first write. -/
theorem writes_into_made_iff_check_and_nesting (s : StepSequence) :
    (WritesIntoMade s.steps ↔ s.firstUnpreparedWrite? = none ∧
      ∀ index position path dir, WritesAt s.steps index position path → IsInnermost s.steps path dir →
        PreparedBefore s.steps index path → MadeBefore s.steps index dir) ∧
    (InnerFirst s.steps → (s.firstUnpreparedWrite? = none ↔ WritesIntoMade s.steps)) ∧
    (PreparesFirst s.steps → WritesIntoMade s.steps) := by
  refine ⟨writesIntoMade_iff s, fun hinnerFirst => ?_, PreparesFirst.writesIntoMade⟩
  rw [writesIntoMade_iff]
  refine ⟨fun hnone => ⟨hnone, fun index position path dir _ hinner hbefore => ?_⟩, fun h => h.1⟩
  obtain ⟨i, hlt, step, outer, hstep, houter, habove⟩ := hbefore
  obtain ⟨other, hother, hdir⟩ := hinner.prepared
  have hlies := hinner.innermost step (List.mem_of_getElem? hstep) outer houter habove
  exact (hinnerFirst i step outer hstep houter other hother dir hdir hlies).mono hlt

/-- A copy into a directory that is cleaned behind it, below one that was made before. -/
def nested : StepSequence where
  steps := .makeCleanDir ⟨"out"⟩ :: misordered.steps

theorem isInnermost_nested : IsInnermost nested.steps ⟨"out/gen/nested"⟩ ⟨"out/gen"⟩ where
  prepared := ⟨.makeCleanDir ⟨"out/gen"⟩, .tail _ (.tail _ (.head _)), rfl⟩
  above := by decide +kernel
  innermost := by
    have hall : ∀ step ∈ nested.steps, ∀ other ∈ step.preparedDir?,
        Path.startsWith ⟨"out/gen"⟩ other = true := by decide +kernel
    intro step hstep other hother _
    exact hall step hstep other hother

theorem nested_write_not_found :
    nested.firstUnpreparedWrite? = none ∧ ¬ WritesIntoMade nested.steps ∧ ¬ InnerFirst nested.steps := by
  obtain ⟨hiff, hinnerFirst, -⟩ := writes_into_made_iff_check_and_nesting nested
  have hnone : nested.firstUnpreparedWrite? = none := by decide +kernel
  have hlate : ¬ WritesIntoMade nested.steps := by
    intro h
    have hwrite : WritesAt nested.steps 1 0 ⟨"out/gen/nested"⟩ := ⟨_, rfl, rfl⟩
    have hbefore : PreparedBefore nested.steps 1 ⟨"out/gen/nested"⟩ :=
      ⟨0, by decide, _, _, rfl, rfl, by decide +kernel⟩
    obtain ⟨i, hlt, step, made, hstep, hmade, hmatch⟩ :=
      (hiff.1 h).2 1 0 _ _ hwrite isInnermost_nested hbefore
    -- only the first step comes before, and it makes the outer directory
    obtain rfl : i = 0 := Nat.lt_one_iff.1 hlt
    obtain rfl := Option.some.inj hstep
    obtain rfl := Option.some.inj hmade
    exact absurd hmatch (by decide +kernel)
  exact ⟨hnone, hlate, fun h => hlate ((hinnerFirst h).1 hnone)⟩

end StepSequence

end JarPlan
