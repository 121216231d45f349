import JarPlan.Proofs.Friends.PlainCopies
import JarPlan.Proofs.Plan.ExtraClasspath
/-!
# Plain entries on the classpath of the Kotlin compiler

All entries of the classpath are absolute. Those that are taken as they are have been resolved, so they are
plain, and copies are plain exactly where the directory for copies is. An output directory that is spelled with
a dot, or that leads up, leaves its dots in the path of every copy.
-/

namespace JarPlan

namespace Draft

/-- The directory that holds the copies of friends. -/
def copiesDir (ws : Workspace) (t : Target) : Path :=
  ws.root.join (Friends.stagingDir (ws.roots.scratchPath t .friendJars))

variable {ws : Workspace} {unit : SourceUnit} {toolchain : Toolchain}

theorem normalize_place_eq_iff (entry : Path) :
    (place ws unit toolchain entry).normalize = place ws unit toolchain entry ↔
      (Friends.IsCopied ws.root toolchain.friendPaths entry →
        (copiesDir ws unit.target).normalize = copiesDir ws unit.target) :=
  Friends.normalize_resolve_eq_iff (getLast?_scratchPath unit) (by decide) _ _

theorem normalize_copiesDir (hplain : ws.root.normalize = ws.root)
    (hscratch : (ws.roots.scratchPath unit.target .friendJars).normalize =
      ws.roots.scratchPath unit.target .friendJars)
    (hdown : (ws.roots.scratchPath unit.target .friendJars).isAbsolute = true ∨
      .up ∉ (ws.roots.scratchPath unit.target .friendJars).components) :
    (copiesDir ws unit.target).normalize = copiesDir ws unit.target := by
  have hdownward : (ws.roots.scratchPath unit.target .friendJars).IsDownward := by
    rw [← hscratch]
    refine Path.isDownward_normalize ?_
    rwa [hscratch]
  exact Path.normalize_join hplain (Friends.isTidy_stagingDir (Path.isTidy_of_normalize_eq hscratch))
    (Friends.spelling_stagingDir_ne (spelling_scratchPath_ne unit)) (Friends.isDownward_stagingDir hdownward)

end Draft

open Draft in
/-- The one run of the Kotlin compiler in a plan gets every entry, by an absolute path. The path is plain unless it is
that of a copy and the directory for copies is not plain. The directory is plain where the root and the scratch
directory are, and the scratch directory does not lead up. -/
theorem kotlin_classpath_plain_iff {ws : Workspace} {unit : SourceUnit} {toolchain : Toolchain}
    {planner : JavaPlanner} {plan : Plan} (hroot : ws.root.isAbsolute = true)
    (hplan : Plan.make ws unit toolchain planner = .ok plan) (hmode : plan.mode.runsKotlinc = true) :
    ∃ draft javaSteps run, Draft.make ws unit toolchain = .ok draft ∧
      plan.steps.steps = draft.steps ++ javaSteps ∧
      .kotlinc run ∈ draft.steps ∧ (∀ other, .kotlinc other ∈ draft.steps → other = run) ∧
      (∀ entry ∈ classpathEntries unit toolchain, ∃ jar ∈ run.classpath,
        (place ws unit toolchain entry == jar) = true) ∧
      (∀ jar ∈ run.classpath, jar.isAbsolute = true ∧ ∃ entry ∈ classpathEntries unit toolchain,
        jar = place ws unit toolchain entry ∧
        (jar.normalize = jar ↔ (Friends.IsCopied ws.root toolchain.friendPaths entry →
          (copiesDir ws unit.target).normalize = copiesDir ws unit.target))) ∧
      (ws.root.normalize = ws.root →
        (ws.roots.scratchPath unit.target .friendJars).normalize = ws.roots.scratchPath unit.target .friendJars →
        ((ws.roots.scratchPath unit.target .friendJars).isAbsolute = true ∨
          .up ∉ (ws.roots.scratchPath unit.target .friendJars).components) →
        ∀ jar ∈ run.classpath, jar.normalize = jar) := by
  obtain ⟨draft, javaSteps, hdraft, -, rfl⟩ := Plan.make_eq_ok.1 hplan
  obtain ⟨settings, run, hrun, hsteps, -⟩ := exists_run_of_make hdraft hmode
  obtain ⟨dir, hstaging⟩ := isStaging_friends ws unit toolchain
  rw [← kotlinSteps_eq_around] at hsteps
  refine ⟨draft, javaSteps, run, hdraft, rfl, ?_, fun other hother => ?_,
    fun entry hentry => exists_mem_classpath hrun hentry, fun jar hjar => ?_,
    fun hplain hscratch hdown jar hjar => ?_⟩
  · rw [hsteps]
    exact kotlinc_mem
  · rw [hsteps] at hother
    exact eq_of_kotlinc_mem hstaging hother
  · obtain ⟨entry, hentry, rfl⟩ := mem_classpath hrun hjar
    exact ⟨Friends.isAbsolute_resolve hroot _ _, entry, hentry, rfl, normalize_place_eq_iff entry⟩
  · obtain ⟨entry, hentry, rfl⟩ := mem_classpath hrun hjar
    exact (normalize_place_eq_iff entry).2 fun _ => normalize_copiesDir hplain hscratch hdown

/-- Trees below an output directory that is spelled with a dot. -/
def dottedWorkspace : Workspace := { kaptWorkspace with roots := .below ⟨"./out"⟩ }

theorem friendUnit_classpath_plain_unless_dotted :
    (∃ plan run, Plan.make kaptWorkspace friendUnit kaptToolchain Javac.planner = .ok plan ∧
      .kotlinc run ∈ plan.steps.steps ∧ ∀ jar ∈ run.classpath, jar.normalize = jar) ∧
    ∃ plan run, Plan.make dottedWorkspace friendUnit kaptToolchain Javac.planner = .ok plan ∧
      .kotlinc run ∈ plan.steps.steps ∧ run.classpath ≠ [] ∧
      ∀ jar ∈ run.classpath, jar.isAbsolute = true ∧ jar.normalize ≠ jar := by
  constructor
  · obtain ⟨-, plan, -, hplan, hmode⟩ := exists_plan_of_run kaptWorkspace friendUnit kaptToolchain
      (by decide +kernel) (by decide +kernel)
    obtain ⟨draft, javaSteps, run, -, hsteps, hrun, -, -, -, hplain⟩ :=
      kotlin_classpath_plain_iff (by decide +kernel) hplan (by rw [hmode]; rfl)
    refine ⟨plan, run, hplan, ?_, hplain (by decide +kernel) (by decide +kernel) (by decide +kernel)⟩
    rw [hsteps]
    exact List.mem_append_left _ hrun
  · obtain ⟨-, plan, -, hplan, hmode⟩ := exists_plan_of_run dottedWorkspace friendUnit kaptToolchain
      (by decide +kernel) (by decide +kernel)
    obtain ⟨draft, javaSteps, run, -, hsteps, hrun, -, hentries, hjars, -⟩ :=
      kotlin_classpath_plain_iff (by decide +kernel) hplan (by rw [hmode]; rfl)
    have hcopied : Friends.IsCopied dottedWorkspace.root kaptToolchain.friendPaths ⟨"out/x/../a,b.jar"⟩ :=
      ⟨by decide +kernel, List.mem_map.2 ⟨⟨"out/a,b.jar"⟩, List.mem_singleton_self _, by decide +kernel⟩⟩
    refine ⟨plan, run, hplan, ?_, ?_, fun jar hjar => ?_⟩
    · rw [hsteps]
      exact List.mem_append_left _ hrun
    · obtain ⟨jar, hjar, -⟩ := hentries ⟨"out/x/../a,b.jar"⟩ (List.mem_singleton_self _)
      exact List.ne_nil_of_mem hjar
    · obtain ⟨habsolute, entry, hentry, -, hiff⟩ := hjars jar hjar
      obtain rfl : entry = ⟨"out/x/../a,b.jar"⟩ := List.mem_singleton.1 hentry
      refine ⟨habsolute, fun hplain => ?_⟩
      exact absurd (hiff.1 hplain hcopied) (by decide +kernel)

end JarPlan
