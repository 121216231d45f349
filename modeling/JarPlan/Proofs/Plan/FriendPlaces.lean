import JarPlan.Proofs.Friends.Places
import JarPlan.Proofs.Plan.Order
import JarPlan.Proofs.Plan.PluginOptions
/-!
# Friends and classpath name the same files

The argument that names the friends and the classpath of the Kotlin compiler are put together apart from
each other, from lists that may spell one jar in many ways. Both give every jar the same place: the jar
itself, or the copy that one step before the run of the compiler makes of it.
-/

namespace JarPlan

namespace Draft

variable {ws : Workspace} {unit : SourceUnit} {toolchain : Toolchain} {settings : Option Kapt.Settings}
  {friends : Friends.Staged} {generated : Path} {run : KotlincRun}

/-- The path by which a jar is named to the Kotlin compiler. -/
def place (ws : Workspace) (unit : SourceUnit) (toolchain : Toolchain) (p : Path) : Path :=
  Classpath.resolve ws.root (Draft.friends ws unit toolchain).copies p

/-- The jars on the classpath of the Kotlin compiler, as they are given. -/
def classpathEntries (unit : SourceUnit) (toolchain : Toolchain) : List Path :=
  toolchain.extraClasspath ++ unit.classpath.toList ++ toolchain.kotlinLibraries.toList

/-! ### The run of the compiler -/

theorem arguments_eq_ok
    (h : Kotlinc.run ws.root unit toolchain settings (Draft.friends ws unit toolchain) generated = .ok run) :
    ∃ rest, run.arguments =
      Friends.argument (.ofList (toolchain.friendPaths.map (place ws unit toolchain))) :: rest := by
  obtain ⟨processing, -, harguments⟩ := Kotlinc.arguments_of_run h
  have hpaths : (Draft.friends ws unit toolchain).paths =
      .ofList (toolchain.friendPaths.map (place ws unit toolchain)) := Friends.paths_stage ..
  rw [hpaths, List.cons_append, List.cons_append] at harguments
  exact ⟨_, harguments⟩

theorem classpath_eq_ok
    (h : Kotlinc.run ws.root unit toolchain settings (Draft.friends ws unit toolchain) generated = .ok run) :
    run.classpath =
      (SortedSet.collect ((classpathEntries unit toolchain).map (place ws unit toolchain))).toList := by
  obtain ⟨arguments, -, h⟩ := bind_eq_ok.1 h
  obtain rfl := Except.ok.inj h
  rfl

theorem mem_classpath
    (h : Kotlinc.run ws.root unit toolchain settings (Draft.friends ws unit toolchain) generated = .ok run)
    {jar : Path} (hjar : jar ∈ run.classpath) :
    ∃ entry ∈ classpathEntries unit toolchain, jar = place ws unit toolchain entry := by
  rw [classpath_eq_ok h] at hjar
  obtain ⟨entry, hentry, rfl⟩ := List.mem_map.1 (SortedSet.mem_of_mem_collect hjar)
  exact ⟨entry, hentry, rfl⟩

theorem exists_mem_classpath
    (h : Kotlinc.run ws.root unit toolchain settings (Draft.friends ws unit toolchain) generated = .ok run)
    {entry : Path} (hentry : entry ∈ classpathEntries unit toolchain) :
    ∃ jar ∈ run.classpath, (place ws unit toolchain entry == jar) = true := by
  have hcontains := SortedSet.contains_collect_of_mem (List.mem_map_of_mem (f := place ws unit toolchain) hentry)
  obtain ⟨jar, hjar, hmatch⟩ := SortedSet.contains_iff.1 hcontains
  rw [classpath_eq_ok h]
  exact ⟨jar, hjar, Path.compare_eq_iff.1 hmatch⟩

/-! ### Copies of files -/

/-- Before the compiler runs, single files are copied only for friends. -/
theorem filter_stepsBefore (origin : Path) :
    (stepsBefore settings friends generated).filter (Step.isFileCopyOf origin) =
      friends.steps.filter (Step.isFileCopyOf origin) := by
  obtain ⟨cleaned, hsteps⟩ := exists_stepsBefore_eq settings friends generated
  have hcleaned : (cleaned.map Step.makeCleanDir).filter (Step.isFileCopyOf origin) = [] := by
    rw [List.filter_eq_nil_iff]
    intro step hstep
    obtain ⟨dir, -, rfl⟩ := List.mem_map.1 hstep
    exact Bool.false_ne_true
  rw [hsteps, List.filter_append, hcleaned, List.nil_append]

theorem filter_stepsAfter (origin : Path) :
    (stepsAfter ws unit settings).filter (Step.isFileCopyOf origin) = [] := by
  rw [List.filter_eq_nil_iff]
  intro step hstep
  rcases mem_stepsAfter hstep with ⟨source, destination, rfl⟩ | ⟨report, target, rfl⟩ |
    ⟨root, output, sourceDir, ignored, rfl⟩ <;> exact Bool.false_ne_true

/-! ### Places -/

theorem place_congr {p q : Path} (h : ws.root.absolutize p = ws.root.absolutize q) :
    place ws unit toolchain p = place ws unit toolchain q := by
  rw [place, Classpath.resolve, h, place, Classpath.resolve]

end Draft

open Draft in
/-- A friend and an entry of the classpath that lie at one place are given to the compiler as one path, in
the argument and in the classpath. It is their own where it can stand in the argument, and is otherwise
the copy that is made before the compiler runs, once. -/
theorem friends_agree_with_classpath {ws : Workspace} {unit : SourceUnit} {toolchain : Toolchain}
    {planner : JavaPlanner} {plan : Plan} (hplan : Plan.make ws unit toolchain planner = .ok plan)
    (hmode : plan.mode.runsKotlinc = true) :
    ∃ draft javaSteps before run after,
      Draft.make ws unit toolchain = .ok draft ∧ plan.steps.steps = draft.steps ++ javaSteps ∧
      draft.steps = before ++ .kotlinc run :: after ∧ (∀ other, .kotlinc other ∉ before ++ after) ∧
      (∃ rest, run.arguments =
        Friends.argument (.ofList (toolchain.friendPaths.map (place ws unit toolchain))) :: rest) ∧
      run.classpath =
        (SortedSet.collect ((classpathEntries unit toolchain).map (place ws unit toolchain))).toList ∧
      ∀ friend ∈ toolchain.friendPaths, ∀ entry ∈ classpathEntries unit toolchain,
        (ws.root.absolutize friend == ws.root.absolutize entry) = true →
        place ws unit toolchain friend = place ws unit toolchain entry ∧
        (SortedSet.ofList (toolchain.friendPaths.map (place ws unit toolchain))).contains
          (place ws unit toolchain friend) = true ∧
        (∃ jar ∈ run.classpath, (place ws unit toolchain entry == jar) = true) ∧
        (Friends.separator ∉ (ws.root.absolutize friend).spelling.toList →
          place ws unit toolchain friend = ws.root.absolutize friend) ∧
        (Friends.separator ∈ (ws.root.absolutize friend).spelling.toList →
          before.filter (Step.isFileCopyOf (ws.root.absolutize friend)) =
              [.copy (ws.root.absolutize friend) (place ws unit toolchain friend) .file] ∧
            after.filter (Step.isFileCopyOf (ws.root.absolutize friend)) = []) := by
  obtain ⟨draft, javaSteps, hdraft, -, rfl⟩ := Plan.make_eq_ok.1 hplan
  obtain ⟨settings, run, hrun, hsteps, -⟩ := exists_run_of_make hdraft hmode
  obtain ⟨dir, hstaging⟩ := isStaging_friends ws unit toolchain
  refine ⟨draft, javaSteps, _, run, _, hdraft, rfl, hsteps, fun other => ?_, arguments_eq_ok hrun,
    classpath_eq_ok hrun, fun friend hfriend entry hentry hsame =>
      ⟨place_congr (Path.absolutize_eq_of_beq hsame), ?_, exists_mem_classpath hrun hentry, fun hclean => ?_,
        fun hcomma => ?_⟩⟩
  · rw [List.mem_append, not_or]
    exact ⟨kotlinc_not_mem_stepsBefore hstaging other, kotlinc_not_mem_stepsAfter other⟩
  · exact SortedSet.contains_ofList_of_mem (List.mem_map_of_mem hfriend)
  · exact Friends.resolve_eq_absolutize _ _ _ hclean
  · rw [filter_stepsBefore]
    exact ⟨(Friends.copied_once _ _ _ hfriend hcomma).1, filter_stepsAfter _⟩

/-- A unit with its friend on the classpath, in another spelling. -/
def friendUnit : SourceUnit := kaptUnit.withClasspath [⟨"out/x/../a,b.jar"⟩]

theorem friendUnit_agrees_with_classpath :
    ∃ plan before run after, Plan.make kaptWorkspace friendUnit kaptToolchain Javac.planner = .ok plan ∧
      plan.steps.steps = before ++ .kotlinc run :: after ∧
      ∃ copy, before.filter (Step.isFileCopyOf ⟨"/r/out/a,b.jar"⟩) = [.copy ⟨"/r/out/a,b.jar"⟩ copy .file] ∧
        ∃ jar ∈ run.classpath, (copy == jar) = true := by
  obtain ⟨-, plan, -, hplan, hmode⟩ := exists_plan_of_run kaptWorkspace friendUnit kaptToolchain
    (by decide +kernel) (by decide +kernel)
  obtain ⟨draft, javaSteps, before, run, after, -, hsteps, hdraft, -, -, -, hagree⟩ :=
    friends_agree_with_classpath hplan (by rw [hmode]; rfl)
  obtain ⟨hplace, -, hjar, -, hcopied⟩ := hagree ⟨"out/a,b.jar"⟩ (List.mem_singleton_self _)
    ⟨"out/x/../a,b.jar"⟩ (List.mem_singleton_self _) (by decide +kernel)
  have hpath : kaptWorkspace.root.absolutize ⟨"out/a,b.jar"⟩ = ⟨"/r/out/a,b.jar"⟩ := by decide +kernel
  rw [hpath] at hcopied
  rw [hdraft, List.append_assoc, List.cons_append] at hsteps
  refine ⟨plan, before, run, after ++ javaSteps, hplan, hsteps, _, (hcopied (by decide +kernel)).1, ?_⟩
  rw [hplace]
  exact hjar

end JarPlan
