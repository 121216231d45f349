import JarPlan.Proofs.Plan.FriendPlaces
/-!
# The classpaths of the two compilers

The Java pass that follows the Kotlin compiler sees the compiled classes first and then the jars given
and declared, in order. Its entries are written relative to the root where they can be, and those of the
Kotlin compiler are absolute, but they lie at the same places: only the compiled classes, the runtime
libraries and the copies of friends make a difference.
-/

namespace JarPlan

namespace Draft

variable {ws : Workspace} {unit : SourceUnit} {toolchain : Toolchain}

/-- The entries of the Java pass as they are written, before they are sorted. -/
def writtenEntries (root : Path) (unit : SourceUnit) (toolchain : Toolchain) : List Path :=
  toolchain.extraClasspath.map (fun p => root.relativize p.normalize) ++ unit.classpath.toList.map Path.normalize

/-- However an entry is written, it lies where it was given. -/
theorem map_absolutize_writtenEntries {root : Path} (hroot : root.isAbsolute = true) (unit : SourceUnit)
    (toolchain : Toolchain) :
    (writtenEntries root unit toolchain).map root.absolutize =
      (toolchain.extraClasspath ++ unit.classpath.toList).map root.absolutize := by
  have hextra (p : Path) : root.absolutize (root.relativize p.normalize) = root.absolutize p := by
    rw [Path.absolutize_relativize hroot, Path.absolutize_normalize]
  simp only [writtenEntries, List.map_append, List.map_map, Function.comp_def, hextra, Path.absolutize_normalize]

theorem mem_restClasspath {root p : Path} (h : p ∈ restClasspath root unit toolchain) :
    p ∈ writtenEntries root unit toolchain ∧ (p == unit.outputPaths.classesDir) = false := by
  obtain ⟨hwritten, hne⟩ := List.mem_filter.1 (SortedSet.mem_of_mem_collect h)
  rw [bne, Bool.not_eq_true'] at hne
  exact ⟨hwritten, hne⟩

/-- Each entry stands behind the compiled classes, or for them, in one of its spellings. -/
theorem exists_mem_restClasspath {root p : Path} (h : p ∈ writtenEntries root unit toolchain) :
    ∃ q ∈ unit.outputPaths.classesDir :: (restClasspath root unit toolchain).toList, (p == q) = true := by
  by_cases hclasses : (p == unit.outputPaths.classesDir) = true
  · exact ⟨_, List.mem_cons_self, hclasses⟩
  · have hcontains : (restClasspath root unit toolchain).contains p = true := by
      refine SortedSet.contains_collect_of_mem (List.mem_filter.2 ⟨h, ?_⟩)
      rw [bne, Bool.not_eq_true', Bool.eq_false_iff]
      exact hclasses
    obtain ⟨q, hq, hmatch⟩ := SortedSet.contains_iff.1 hcontains
    exact ⟨q, List.mem_cons_of_mem _ hq, Path.compare_eq_iff.1 hmatch⟩

theorem mem_locations_iff {root : Path} (hroot : root.isAbsolute = true) (unit : SourceUnit)
    (toolchain : Toolchain) (location : Path) :
    location ∈ (unit.outputPaths.classesDir :: (restClasspath root unit toolchain).toList).map root.absolutize ↔
      location = root.absolutize unit.outputPaths.classesDir ∨
        location ∈ (toolchain.extraClasspath ++ unit.classpath.toList).map root.absolutize := by
  rw [← map_absolutize_writtenEntries hroot]
  constructor
  · intro h
    obtain ⟨p, hp, rfl⟩ := List.mem_map.1 h
    rcases List.mem_cons.1 hp with rfl | hp
    · exact .inl rfl
    · exact .inr (List.mem_map_of_mem (mem_restClasspath hp).1)
  · rintro (rfl | h)
    · exact List.mem_map_of_mem List.mem_cons_self
    · obtain ⟨p, hp, rfl⟩ := List.mem_map.1 h
      obtain ⟨q, hq, hmatch⟩ := exists_mem_restClasspath hp
      rw [Path.absolutize_congr root hmatch]
      exact List.mem_map_of_mem hq

theorem classpath_of_make {draft : Draft} (h : make ws unit toolchain = .ok draft)
    (hmode : draft.mode.runsKotlinc = true) : draft.request.input.classpath =
      unit.outputPaths.classesDir :: (restClasspath ws.root unit toolchain).toList := by
  obtain ⟨settings, run, -, -, hinput⟩ := exists_run_of_make h hmode
  rw [hinput, restInput]

end Draft

open Draft in
/-- The Java pass sees the compiled classes first, then the jars given and declared in ascending order, at the
places they were given. The Kotlin compiler sees these jars too, each at its place or as its copy, and
besides them the runtime libraries. -/
theorem classpaths_agree {ws : Workspace} {unit : SourceUnit} {toolchain : Toolchain} {draft : Draft}
    (hroot : ws.root.isAbsolute = true) (hdraft : Draft.make ws unit toolchain = .ok draft)
    (hmode : draft.mode.runsKotlinc = true) :
    (∀ planner, Plan.make ws unit toolchain planner =
      (planner draft.request.target draft.request.options draft.request.input).map (draft.complete unit)) ∧
    ∃ run later, .kotlinc run ∈ draft.steps ∧ (∀ other, .kotlinc other ∈ draft.steps → other = run) ∧
      draft.request.input.classpath = unit.outputPaths.classesDir :: later ∧
      (∀ location, location ∈ draft.request.input.classpath.map ws.root.absolutize ↔
        location = ws.root.absolutize unit.outputPaths.classesDir ∨
          location ∈ (toolchain.extraClasspath ++ unit.classpath.toList).map ws.root.absolutize) ∧
      (∀ entry ∈ later, (entry == unit.outputPaths.classesDir) = false) ∧ Ascending compare later ∧
      (∀ entry ∈ draft.request.input.classpath,
        ws.root.absolutize entry = ws.root.absolutize unit.outputPaths.classesDir ∨
          ∃ jar ∈ run.classpath, (place ws unit toolchain entry == jar) = true) ∧
      ∀ jar ∈ run.classpath, ∃ entry ∈ draft.request.input.classpath ++ toolchain.kotlinLibraries.toList,
        jar = place ws unit toolchain entry := by
  obtain ⟨settings, run, hrun, hsteps, -⟩ := exists_run_of_make hdraft hmode
  have hclasspath := classpath_of_make hdraft hmode
  have hlocations := mem_locations_iff hroot unit toolchain
  rw [← hclasspath] at hlocations
  obtain ⟨dir, hstaging⟩ := isStaging_friends ws unit toolchain
  rw [← kotlinSteps_eq_around] at hsteps
  refine ⟨plan_of_make hdraft, run, _, ?_, fun other hother => ?_, hclasspath, hlocations,
    fun entry hentry => (mem_restClasspath hentry).2, (restClasspath ws.root unit toolchain).ascending,
    fun entry hentry => ?_, fun jar hjar => ?_⟩
  · rw [hsteps]
    exact kotlinc_mem
  · rw [hsteps] at hother
    exact eq_of_kotlinc_mem hstaging hother
  · rcases (hlocations _).1 (List.mem_map_of_mem hentry) with h | h
    · exact .inl h
    · right
      obtain ⟨p, hp, hlocation⟩ := List.mem_map.1 h
      rw [place_congr hlocation.symm]
      exact exists_mem_classpath hrun (List.mem_append_left _ hp)
  · obtain ⟨p, hp, rfl⟩ := mem_classpath hrun hjar
    rcases List.mem_append.1 hp with hp | hlibrary
    · obtain ⟨entry, hentry, hlocation⟩ := List.mem_map.1 ((hlocations _).2 (.inr (List.mem_map_of_mem hp)))
      exact ⟨entry, List.mem_append_left _ hentry, place_congr hlocation.symm⟩
    · exact ⟨p, List.mem_append_right _ hlibrary, rfl⟩

/-- The unit has a draft where the run of the compiler can be put together. -/
theorem exists_draft_of_run (ws : Workspace) (unit : SourceUnit) (toolchain : Toolchain)
    (hmode : CompileMode.decide unit toolchain = .kotlinWithKapt)
    (hrun : (do
      let settings ← Draft.settings ws unit toolchain .kotlinWithKapt
      Kotlinc.run ws.root unit toolchain settings (Draft.friends ws unit toolchain)
        (ws.roots.annotationPath unit.target .pluginGenerated)).toBool = true) :
    ∃ draft, Draft.make ws unit toolchain = .ok draft ∧ draft.mode.runsKotlinc = true := by
  obtain ⟨-, plan, -, hplan, hplanMode⟩ := exists_plan_of_run ws unit toolchain hmode hrun
  obtain ⟨draft, javaSteps, hdraft, -, rfl⟩ := Plan.make_eq_ok.1 hplan
  have hdraftMode : draft.mode = .kotlinWithKapt := hplanMode
  exact ⟨draft, hdraft, by rw [hdraftMode]; rfl⟩

theorem friendUnit_classpaths_agree :
    ∃ draft run later, Draft.make kaptWorkspace friendUnit kaptToolchain = .ok draft ∧
      .kotlinc run ∈ draft.steps ∧
      draft.request.input.classpath = friendUnit.outputPaths.classesDir :: later ∧
      ⟨"/r/out/a,b.jar"⟩ ∈ draft.request.input.classpath.map kaptWorkspace.root.absolutize ∧
      ⟨"/r/stdlib.jar"⟩ ∉ draft.request.input.classpath.map kaptWorkspace.root.absolutize := by
  obtain ⟨draft, hdraft, hmode⟩ := exists_draft_of_run kaptWorkspace friendUnit kaptToolchain
    (by decide +kernel) (by decide +kernel)
  obtain ⟨-, run, later, hrun, -, hclasspath, hlocations, -⟩ := classpaths_agree (by decide +kernel) hdraft hmode
  refine ⟨draft, run, later, hdraft, hrun, hclasspath, (hlocations _).2 (.inr ?_), fun hlibrary => ?_⟩
  · exact List.mem_map.2 ⟨⟨"out/x/../a,b.jar"⟩, List.mem_singleton_self _, by decide +kernel⟩
  · rcases (hlocations _).1 hlibrary with h | h
    · exact absurd h (by decide +kernel)
    · obtain ⟨p, hp, h⟩ := List.mem_map.1 h
      obtain rfl : p = ⟨"out/x/../a,b.jar"⟩ := List.mem_singleton.1 hp
      exact absurd h (by decide +kernel)

end JarPlan
