import JarPlan.Proofs.Plan.Sources
/-!
# Artifacts are made before they are used

What annotation processing generates passes through several steps: the compiler writes it into directories,
copies merge these into one, an archive is made of that, and the Java pass reads the archive. The directories
are named once for the compiler, once for its plugin and once for the steps that follow, some below the root
and some relative to it. All these names agree, and each artifact is there before a step takes it up.
-/

namespace JarPlan

/-! ### Names -/

theorem Kapt.Settings.generated_subset_outputs (s : Settings) : s.dirs.generated ⊆ s.outputs := by
  intro dir hdir
  simp only [Directories.generated, List.mem_cons, List.not_mem_nil, or_false] at hdir
  rcases hdir with rfl | rfl | rfl <;> simp [outputs]

theorem Kapt.Settings.exists_afterCompiler_eq (s : Settings) (root : Path) (t : Target) (classesDir : Path)
    (ignored : SortedSet Path) : ∃ rest, s.afterCompiler root t classesDir ignored =
      s.dirs.generated.map (fun dir => .copy dir s.dirs.merged .contents) ++ rest :=
  ⟨_, List.append_assoc _ _ _⟩

theorem Kapt.Settings.reports_mem_outputs (s : Settings) (hreports : s.reportsTimings = true) :
    s.dirs.reports ∈ s.outputs := by
  rw [outputs, if_pos hreports]
  exact List.mem_append_right _ (List.mem_singleton_self _)

/-- The report lies below the directory of reports, also where both are read from the root. -/
theorem Kapt.Directories.join_timings_startsWith (d : Directories) (root : Path) :
    (root.join d.timings).startsWith (root.join d.reports) = true := by
  rw [timings, Path.entry, Path.join_assoc]
  exact Path.entry_startsWith (root.join d.reports) (by decide)

/-- The one archive among the sources of the Java pass is that of generated sources: archives of the unit
are for the Kotlin compiler. -/
theorem Draft.isSourceArchive_iff_of_settings (unit : SourceUnit) (s : Kapt.Settings) (source : Path) :
    source ∈ restSources unit (some s) ∧ source.isSourceArchive = true ↔ source = s.dirs.archive := by
  rw [mem_restSources_iff, Path.isSourceArchive_iff]
  constructor
  · rintro ⟨⟨-, -, hother⟩ | ⟨settings, hsettings, rfl⟩, harchive⟩
    · exact absurd harchive hother
    · rw [Option.some.inj hsettings]
  · rintro rfl
    exact ⟨.inr ⟨s, rfl, rfl⟩, s.dirs.isArchive_archive⟩

/-! ### The report of timings -/

namespace Kotlinc

theorem exists_options_infix_arguments {root generated : Path} {unit : SourceUnit} {toolchain : Toolchain}
    {s : Kapt.Settings} {friends : Friends.Staged} {run : KotlincRun}
    (h : Kotlinc.run root unit toolchain (some s) friends generated = .ok run) :
    ∃ options, s.pluginOptions root = .ok options ∧ ["-P", ",".intercalate options] <:+: run.arguments := by
  obtain ⟨processing, hprocessing, harguments⟩ := arguments_of_run h
  obtain ⟨options, hoptions, hprocessing⟩ := bind_eq_ok.1 hprocessing
  obtain rfl := Except.ok.inj hprocessing
  refine ⟨options, hoptions, ?_⟩
  have hown : ["-P", ",".intercalate options] <:+:
      ["-Xplugin=" ++ s.pluginJar.spelling, "-P", ",".intercalate options] := ⟨[_], [], rfl⟩
  rw [harguments, List.append_assoc, List.append_assoc]
  exact hown.trans (List.infix_append' _ _ _)

theorem timings_mem_pluginOptions_iff {root : Path} {s : Kapt.Settings} {options : List String}
    (h : s.pluginOptions root = .ok options) (value : String) :
    Kapt.Settings.pluginOption "dumpProcessorTimings=" value ∈ options ↔
      s.reportsTimings = true ∧ value = (root.join s.dirs.timings).spelling := by
  obtain ⟨apOptions, javacArguments, -, -, hmem⟩ := pluginOption_mem_iff h
  rw [hmem _ (by simp [optionNames]), namedOptions]
  cases s.reportsTimings <;> simp

end Kotlinc

/-! ### Order -/

theorem Step.kind_ne_zip_of_isSetup {step : Step} (h : step.isSetup = true) : step.kind ≠ "zip" := by
  cases step with
  | zip root output sourceDir ignored => cases h
  | _ => simp [kind]

/-- A step of a kind that the front of a list does not have comes after all of the front. -/
theorem exists_lt_getElem?_of_mem {front back : List Step} {kind : String}
    (hfront : ∀ step ∈ front, step.kind ≠ kind) {i : Nat} {step : Step} (hstep : (front ++ back)[i]? = some step)
    (hkind : step.kind = kind) {earlier : Step} (hearlier : earlier ∈ front) :
    ∃ j < i, (front ++ back)[j]? = some earlier := by
  obtain ⟨j, hj⟩ := List.getElem?_of_mem hearlier
  have hlength : j < front.length := (List.getElem?_eq_some_iff.1 hj).1
  have hbehind : front.length ≤ i := by
    by_contra hlt
    rw [List.getElem?_append_left (Nat.lt_of_not_le hlt)] at hstep
    exact hfront step (List.mem_of_getElem? hstep) hkind
  refine ⟨j, Nat.lt_of_lt_of_le hlength hbehind, ?_⟩
  rw [List.getElem?_append_left hlength, hj]

namespace Draft

variable {ws : Workspace} {unit : SourceUnit} {toolchain : Toolchain} {settings : Option Kapt.Settings}
  {run : KotlincRun}

theorem mem_stepsAfter_of_isFollowUp {step : Step} (h : step ∈ (around ws unit toolchain settings run).steps)
    (hkind : step.isFollowUp = true) : step ∈ stepsAfter ws unit settings := by
  obtain ⟨dir, hstaging⟩ := isStaging_friends ws unit toolchain
  rw [steps_around, List.mem_append, List.mem_cons] at h
  rcases h with hbefore | rfl | hafter
  · have hsetup := isSetup_of_mem_stepsBefore hstaging hbefore
    rw [Step.isSetup_eq_false_of_isFollowUp hkind] at hsetup
    cases hsetup
  · cases hkind
  · exact hafter

/-- All that can follow the compiler. -/
theorem cases_of_isFollowUp {step : Step} (h : step ∈ (around ws unit toolchain settings run).steps)
    (hkind : step.isFollowUp = true) : ∃ s, settings = some s ∧
      ((∃ dir ∈ s.dirs.generated, ∃ destination, step = .copy dir destination .contents) ∨
        (s.reportsTimings = true ∧ step = .forwardTimings (ws.root.join s.dirs.timings) unit.target) ∨
        step = .zip ws.root s.dirs.archive s.dirs.merged ws.ignored) := by
  obtain ⟨s, hs, hmerging | hlast⟩ := exists_settings_of_mem_stepsAfter (mem_stepsAfter_of_isFollowUp h hkind)
  · rcases Kapt.Settings.mem_merging hmerging with ⟨dir, hdir, hcopy⟩ | hforward | hzip
    · exact ⟨s, hs, .inl ⟨dir, hdir, _, hcopy⟩⟩
    · exact ⟨s, hs, .inr (.inl hforward)⟩
    · exact ⟨s, hs, .inr (.inr hzip)⟩
  · exact ⟨s, hs, .inl ⟨s.dirs.classes, List.mem_cons_of_mem _ List.mem_cons_self, _, hlast⟩⟩

theorem source_mem_generatedDirs {source destination : Path}
    (hrun : Kotlinc.run ws.root unit toolchain settings (friends ws unit toolchain)
      (ws.roots.annotationPath unit.target .pluginGenerated) = .ok run)
    (h : .copy source destination .contents ∈ (around ws unit toolchain settings run).steps) :
    source ∈ run.generatedDirs := by
  obtain ⟨s, rfl, ⟨dir, hdir, _, hcopy⟩ | ⟨-, hcopy⟩ | hcopy⟩ := cases_of_isFollowUp h rfl
  · cases hcopy
    rw [(kotlincRun_eq_ok hrun).2.2.2]
    exact List.mem_cons_of_mem _ (s.generated_subset_outputs hdir)
  · cases hcopy
  · cases hcopy

theorem eq_of_forwardTimings_mem {report : Path} {target : Target}
    (h : .forwardTimings report target ∈ (around ws unit toolchain settings run).steps) :
    ∃ s, settings = some s ∧ s.reportsTimings = true ∧ report = ws.root.join s.dirs.timings := by
  obtain ⟨s, hs, ⟨dir, -, _, hforward⟩ | ⟨hreports, hforward⟩ | hforward⟩ := cases_of_isFollowUp h rfl
  · cases hforward
  · cases hforward
    exact ⟨s, hs, hreports, rfl⟩
  · cases hforward

theorem eq_of_zip_mem {root output sourceDir : Path} {ignored : SortedSet Path}
    (h : .zip root output sourceDir ignored ∈ (around ws unit toolchain settings run).steps) :
    ∃ s, settings = some s ∧ output = s.dirs.archive ∧ sourceDir = s.dirs.merged := by
  obtain ⟨s, hs, ⟨dir, -, _, hzip⟩ | ⟨-, hzip⟩ | hzip⟩ := cases_of_isFollowUp h rfl
  · cases hzip
  · cases hzip
  · cases hzip
    exact ⟨s, hs, rfl, rfl⟩

/-- What is archived has been merged before. -/
theorem exists_copy_before_zip {s : Kapt.Settings} {i : Nat} {root output sourceDir : Path}
    {ignored : SortedSet Path}
    (h : (around ws unit toolchain (some s) run).steps[i]? = some (.zip root output sourceDir ignored))
    {dir : Path} (hdir : dir ∈ s.dirs.generated) :
    ∃ j < i, (around ws unit toolchain (some s) run).steps[j]? = some (.copy dir s.dirs.merged .contents) := by
  obtain ⟨stagingDir, hstaging⟩ := isStaging_friends ws unit toolchain
  obtain ⟨rest, hrest⟩ := s.exists_afterCompiler_eq ws.root unit.target unit.outputPaths.classesDir ws.ignored
  have hafter : stepsAfter ws unit (some s) =
      s.dirs.generated.map (fun dir => .copy dir s.dirs.merged .contents) ++ rest := hrest
  rw [steps_around, hafter, ← List.cons_append, ← List.append_assoc] at h ⊢
  -- nothing is archived before the copies or among them, so the archive comes after them all
  refine exists_lt_getElem?_of_mem (fun step hstep => ?_) h rfl ?_
  · rw [List.mem_append, List.mem_cons] at hstep
    rcases hstep with hbefore | rfl | hcopy
    · exact Step.kind_ne_zip_of_isSetup (isSetup_of_mem_stepsBefore hstaging hbefore)
    · exact (by decide : "kotlinc" ≠ "zip")
    · obtain ⟨source, -, rfl⟩ := List.mem_map.1 hcopy
      exact (by decide : "copy" ≠ "zip")
  · exact List.mem_append_right _ (List.mem_cons_of_mem _ (List.mem_map_of_mem hdir))

theorem exists_zip_of_settings (ws : Workspace) (unit : SourceUnit) (toolchain : Toolchain) (s : Kapt.Settings)
    (run : KotlincRun) : .zip ws.root s.dirs.archive s.dirs.merged ws.ignored ∈
      (around ws unit toolchain (some s) run).steps := by
  rw [steps_around, stepsAfter, Option.map_some, Option.getD_some, Kapt.Settings.afterCompiler]
  simp

end Draft

/-! ### Whole plans -/

/-- In the steps of a draft around the Kotlin compiler nothing is taken up before it is made. Contents are
copied out of directories that the compiler was told to write; timings are read from the file that the plugin
was told to write; what is archived are all the copies; and the archive is the one among the sources of the
Java pass. -/
theorem artifacts_made_before_use {ws : Workspace} {unit : SourceUnit} {toolchain : Toolchain}
    {planner : JavaPlanner} {plan : Plan} (hplan : Plan.make ws unit toolchain planner = .ok plan)
    (hmode : plan.mode.runsKotlinc = true) :
    ∃ draft javaSteps k run, Draft.make ws unit toolchain = .ok draft ∧
      planner draft.request.target draft.request.options draft.request.input = .ok javaSteps ∧
      plan.steps.steps = draft.steps ++ javaSteps ∧ draft.steps[k]? = some (.kotlinc run) ∧
      (∀ (i : Nat) (source destination : Path),
        draft.steps[i]? = some (.copy source destination .contents) →
          source ∈ run.generatedDirs ∧ k < i) ∧
      (∀ (i : Nat) (report : Path) (target : Target),
        draft.steps[i]? = some (.forwardTimings report target) →
          k < i ∧ (∃ dir ∈ run.generatedDirs, report.startsWith (ws.root.join dir) = true) ∧
          ∃ s options, Draft.settings ws unit toolchain plan.mode = .ok (some s) ∧
            s.pluginOptions ws.root = .ok options ∧ ["-P", ",".intercalate options] <:+: run.arguments ∧
            ∀ value, Kapt.Settings.pluginOption "dumpProcessorTimings=" value ∈ options ↔
              value = report.spelling) ∧
      (∀ (i : Nat) (root output sourceDir : Path) (ignored : SortedSet Path),
        draft.steps[i]? = some (.zip root output sourceDir ignored) →
          (∀ dir ∈ (Kapt.Directories.standard ws.roots unit.target).generated,
            ∃ j < i, draft.steps[j]? = some (.copy dir sourceDir .contents)) ∧
          ∀ source, source ∈ draft.request.input.sources ∧ source.isSourceArchive = true ↔
            source = output) ∧
      (plan.mode = .kotlinWithKapt → ∃ i < draft.steps.length, ∃ root output sourceDir ignored,
        draft.steps[i]? = some (.zip root output sourceDir ignored)) := by
  obtain ⟨draft, javaSteps, hdraft, hjava, rfl⟩ := Plan.make_eq_ok.1 hplan
  rcases Draft.cases_of_make hdraft with ⟨-, rfl⟩ | ⟨-, settings, run, hsettings, hrun, rfl⟩
  · cases hmode
  obtain ⟨k, hphases⟩ := Draft.inPhases_around ws unit toolchain settings run
  refine ⟨_, javaSteps, k, run, hdraft, hjava, rfl, hphases.compiles, ?_, ?_, ?_, ?_⟩
  · intro i source destination hcopy
    exact ⟨Draft.source_mem_generatedDirs hrun (List.mem_of_getElem? hcopy),
      hphases.lt_of_isFollowUp hcopy rfl⟩
  · intro i report target hforward
    obtain ⟨s, rfl, hreports, rfl⟩ := Draft.eq_of_forwardTimings_mem (List.mem_of_getElem? hforward)
    obtain ⟨options, hoptions, hinfix⟩ := Kotlinc.exists_options_infix_arguments hrun
    refine ⟨hphases.lt_of_isFollowUp hforward rfl, ⟨s.dirs.reports, ?_, s.dirs.join_timings_startsWith ws.root⟩,
      s, options, hsettings, hoptions, hinfix, fun value => ?_⟩
    · rw [(Draft.kotlincRun_eq_ok hrun).2.2.2]
      exact List.mem_cons_of_mem _ (s.reports_mem_outputs hreports)
    · rw [Kotlinc.timings_mem_pluginOptions_iff hoptions]
      exact and_iff_right hreports
  · intro i root output sourceDir ignored hzip
    obtain ⟨s, rfl, rfl, rfl⟩ := Draft.eq_of_zip_mem (List.mem_of_getElem? hzip)
    constructor
    · intro dir hdir
      rw [← Draft.dirs_of_settings hsettings] at hdir
      exact Draft.exists_copy_before_zip hzip hdir
    · intro source
      exact Draft.isSourceArchive_iff_of_settings unit s source
  · intro hkapt
    rcases Draft.settings_eq_ok hsettings with ⟨hother, -⟩ | ⟨-, s, rfl, -⟩
    · exact absurd hkapt hother
    · obtain ⟨i, hi⟩ := List.getElem?_of_mem (Draft.exists_zip_of_settings ws unit toolchain s run)
      exact ⟨i, (List.getElem?_eq_some_iff.1 hi).1, _, _, _, _, hi⟩

theorem kaptUnit_artifacts_made_before_use :
    ∃ plan, ∃ draft : Draft, ∃ javaSteps, ∃ k : Nat, ∃ run,
      Plan.make kaptWorkspace kaptUnit kaptToolchain Javac.planner = .ok plan ∧
      plan.mode.runsKotlinc = true ∧ plan.steps.steps = draft.steps ++ javaSteps ∧
      draft.steps[k]? = some (.kotlinc run) ∧
      ∃ i < draft.steps.length, ∃ root output sourceDir ignored,
        draft.steps[i]? = some (.zip root output sourceDir ignored) ∧
        ∀ source, source ∈ draft.request.input.sources ∧ source.isSourceArchive = true ↔ source = output := by
  obtain ⟨-, plan, -, hplan, hkapt⟩ := exists_kaptPlan
  have hmode : plan.mode.runsKotlinc = true := by
    rw [hkapt]
    rfl
  obtain ⟨draft, javaSteps, k, run, -, -, hsteps, hrun, -, -, hzips, hzip⟩ := artifacts_made_before_use hplan hmode
  obtain ⟨i, hi, root, output, sourceDir, ignored, hzip⟩ := hzip hkapt
  exact ⟨plan, draft, javaSteps, k, run, hplan, hmode, hsteps, hrun, i, hi, root, output, sourceDir, ignored, hzip,
    (hzips i root output sourceDir ignored hzip).2⟩

end JarPlan
