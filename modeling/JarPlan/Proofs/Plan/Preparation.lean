import JarPlan.Plan.Basic
import JarPlan.Proofs.Friends.Staging
/-!
# Plans prepare before they write

The directories a plan writes into are named in several places: where annotation processing cleans them,
where the compiler is told what it generates into, where the output of processing is merged and
archived, and where friends are staged. All of them agree: what any step of a draft writes lies below a
directory that an earlier step prepares, save for the outputs of the unit itself. The steps that prepare
come first, so the check of the order that a draft makes at its end never fails.
-/

namespace JarPlan

/-! ### Annotation processing -/

namespace Kapt

def Directories.all (d : Directories) : List Path :=
  [d.stubs, d.classes, d.kotlinSources, d.sources, d.merged, d.archiveDir, d.reports]

/-- Where processors put sources, classes and Kotlin sources. -/
def Directories.generated (d : Directories) : List Path := [d.sources, d.classes, d.kotlinSources]

theorem Directories.prepared {d : Directories} {dir path : Path} (hdir : dir ∈ d.all)
    (hpath : path.startsWith dir = true) : Prepared d.preparation path :=
  ⟨.makeCleanDir dir, List.mem_map_of_mem hdir, dir, rfl, hpath⟩

theorem Directories.writtenPaths_of_mem_preparation {d : Directories} {step : Step}
    (h : step ∈ d.preparation) : step.writtenPaths = [] := by
  obtain ⟨dir, -, rfl⟩ := List.mem_map.1 h
  rfl

namespace Settings

variable {s : Settings}

theorem mem_all_of_mem_outputs {dir : Path} (h : dir ∈ s.outputs) : dir ∈ s.dirs.all := by
  rw [outputs, List.mem_append] at h
  rcases h with h | h
  · simp only [List.mem_cons, List.not_mem_nil, or_false] at h
    rcases h with rfl | rfl | rfl | rfl <;> simp [Directories.all]
  · split at h
    · rw [List.mem_singleton.1 h]
      simp [Directories.all]
    · cases h

/-- The steps after the compiler, less the last one, which puts classes into the unit's own directory. -/
def merging (s : Settings) (root : Path) (t : Target) (ignored : SortedSet Path) : List Step :=
  [s.dirs.sources, s.dirs.classes, s.dirs.kotlinSources].map (fun dir => .copy dir s.dirs.merged .contents)
    ++ (if s.reportsTimings then [.forwardTimings (root.join s.dirs.timings) t] else [])
    ++ [.zip root s.dirs.archive s.dirs.merged ignored]

theorem afterCompiler_eq (root : Path) (t : Target) (classesDir : Path) (ignored : SortedSet Path) :
    s.afterCompiler root t classesDir ignored =
      s.merging root t ignored ++ [.copy s.dirs.classes classesDir .contents] := by
  rw [afterCompiler, merging, List.append_assoc _ [_] [_]]
  rfl

theorem mem_merging {root : Path} {t : Target} {ignored : SortedSet Path} {step : Step}
    (h : step ∈ s.merging root t ignored) :
    (∃ dir ∈ s.dirs.generated, step = .copy dir s.dirs.merged .contents) ∨
      (s.reportsTimings = true ∧ step = .forwardTimings (root.join s.dirs.timings) t) ∨
      step = .zip root s.dirs.archive s.dirs.merged ignored := by
  rw [merging, List.mem_append, List.mem_append, List.mem_singleton] at h
  rcases h with (h | h) | h
  · obtain ⟨dir, hdir, rfl⟩ := List.mem_map.1 h
    exact .inl ⟨dir, hdir, rfl⟩
  · split at h
    · exact .inr (.inl ⟨‹_›, List.mem_singleton.1 h⟩)
    · cases h
  · exact .inr (.inr h)

theorem preparedDir?_of_mem_merging {root : Path} {t : Target} {ignored : SortedSet Path} {step : Step}
    (h : step ∈ s.merging root t ignored) : step.preparedDir? = none := by
  rcases mem_merging h with ⟨dir, -, rfl⟩ | ⟨-, rfl⟩ | rfl <;> rfl

theorem prepared_of_mem_merging {root : Path} {t : Target} {ignored : SortedSet Path} {step : Step}
    (h : step ∈ s.merging root t ignored) :
    ∀ path ∈ step.writtenPaths, Prepared s.dirs.preparation path := by
  intro path hpath
  rcases mem_merging h with ⟨dir, -, rfl⟩ | ⟨-, rfl⟩ | rfl
  · rw [List.mem_singleton.1 hpath]
    exact Directories.prepared (by simp [Directories.all]) (Path.startsWith_self _)
  · cases hpath
  · rw [List.mem_singleton.1 hpath]
    exact Directories.prepared (by simp [Directories.all]) (Path.entry_startsWith s.dirs.archiveDir (by decide))

end Settings

end Kapt

/-! ### Steps around the compiler -/

/-- Makes a directory or copies one file, which is all that is done before the compiler runs. -/
def Step.isSetup : Step → Bool
  | .makeCleanDir _ => true
  | .mkdir _ => true
  | .copy _ _ .file => true
  | _ => false

/-- Puts generated files in place or reports on them, which is all that is done after the compiler. -/
def Step.isFollowUp : Step → Bool
  | .copy _ _ .contents => true
  | .zip _ _ _ _ => true
  | .forwardTimings _ _ => true
  | _ => false

theorem Step.isSetup_eq_false_of_isFollowUp {step : Step} (h : step.isFollowUp = true) : step.isSetup = false := by
  cases step with
  | copy source destination mode =>
    cases mode with
    | contents => rfl
    | _ => cases h
  | zip root output sourceDir ignored => rfl
  | forwardTimings report target => rfl
  | _ => cases h

theorem Step.compiler?_of_isSetup {step : Step} (h : step.isSetup = true) : step.compiler? = none := by
  cases step with
  | kotlinc run => cases h
  | javac run => cases h
  | _ => rfl

theorem Step.compiler?_of_isFollowUp {step : Step} (h : step.isFollowUp = true) : step.compiler? = none := by
  cases step with
  | kotlinc run => cases h
  | javac run => cases h
  | _ => rfl

/-! ### Drafts -/

/-- The outputs of a unit that the Kotlin compiler writes. -/
def OutputPaths.ofKotlinc (o : OutputPaths) : List Path := [o.classesDir, o.sourcesList, o.kotlinRecord]

/-- What a step writes on the way, that is, besides the outputs of the unit. -/
def Step.intermediatePaths : Step → List Path
  | .kotlinc run => run.generatedDirs
  | step => step.writtenPaths

theorem Step.intermediatePaths_subset (step : Step) : step.intermediatePaths ⊆ step.writtenPaths := by
  cases step with
  | kotlinc run => exact fun path hpath => List.mem_append_right _ hpath
  | _ => exact fun path hpath => hpath

namespace Draft

section Steps
variable {ws : Workspace} {unit : SourceUnit} {toolchain : Toolchain} {settings : Option Kapt.Settings}
  {friends : Friends.Staged} {generated : Path} {run : KotlincRun}

theorem kotlincRun_eq_ok
    (h : Kotlinc.run ws.root unit toolchain settings friends generated = .ok run) :
    run.outputDir = unit.outputPaths.classesDir ∧ run.sourcesList = unit.outputPaths.sourcesList ∧
      run.record = (if unit.tracksUsage then some unit.outputPaths.kotlinRecord else none) ∧
      run.generatedDirs = generated :: (settings.map Kapt.Settings.outputs).getD [] := by
  obtain ⟨arguments, -, h⟩ := bind_eq_ok.1 h
  obtain rfl := Except.ok.inj h
  exact ⟨rfl, rfl, rfl, rfl⟩

theorem isPhased_kotlinSteps (hfriends : IsPhased friends.steps) :
    IsPhased (kotlinSteps ws unit settings friends generated run) := by
  -- the steps of staging are in phases, and what stands before and behind them keeps to one phase
  rw [kotlinSteps, List.append_assoc _ [_] friends.steps, ← List.append_assoc _ [_] friends.steps]
  refine ((hfriends.prepend fun step hstep => ?_).append fun step hstep => ?_).append fun step hstep => ?_
  · rcases List.mem_append.1 hstep with hstep | hstep
    · cases settings with
      | none => cases hstep
      | some s => exact Kapt.Directories.writtenPaths_of_mem_preparation hstep
    · rw [List.mem_singleton.1 hstep]
      rfl
  · rw [List.mem_singleton.1 hstep]
    rfl
  · cases settings with
    | none => cases hstep
    | some s =>
      rw [Option.map_some, Option.getD_some, Kapt.Settings.afterCompiler_eq, List.mem_append] at hstep
      rcases hstep with hstep | hstep
      · exact Kapt.Settings.preparedDir?_of_mem_merging hstep
      · rw [List.mem_singleton.1 hstep]
        rfl

/-- The steps of a draft less the last one of annotation processing. -/
def innerSteps (ws : Workspace) (unit : SourceUnit) (settings : Option Kapt.Settings)
    (friends : Friends.Staged) (generated : Path) (run : KotlincRun) : List Step :=
  (settings.map (·.dirs.preparation)).getD [] ++ [.makeCleanDir generated] ++ friends.steps
    ++ [.kotlinc run] ++ (settings.map fun s => s.merging ws.root unit.target ws.ignored).getD []

theorem kotlinSteps_eq : kotlinSteps ws unit settings friends generated run =
    innerSteps ws unit settings friends generated run ++
      (settings.map fun s => [Step.copy s.dirs.classes unit.outputPaths.classesDir .contents]).getD [] := by
  cases settings with
  | none => simp only [kotlinSteps, innerSteps, Option.map_none, Option.getD_none, List.append_nil]
  | some s =>
    simp only [kotlinSteps, innerSteps, Option.map_some, Option.getD_some, Kapt.Settings.afterCompiler_eq,
      List.append_assoc]

theorem prepared_of_mem_innerSteps {dir : Path} (hfriends : Friends.IsStaging dir friends.steps)
    (hrun : run.generatedDirs = generated :: (settings.map Kapt.Settings.outputs).getD []) {step : Step}
    (hstep : step ∈ innerSteps ws unit settings friends generated run) :
    ∀ path ∈ step.intermediatePaths, Prepared (kotlinSteps ws unit settings friends generated run) path := by
  have hprocessing : ∀ s, settings = some s →
      s.dirs.preparation ⊆ kotlinSteps ws unit settings friends generated run := by
    rintro s rfl step hstep
    simp [kotlinSteps, hstep]
  have hstaging : friends.steps ⊆ kotlinSteps ws unit settings friends generated run := by
    intro step hstep
    simp [kotlinSteps, hstep]
  have hgenerated : .makeCleanDir generated ∈ kotlinSteps ws unit settings friends generated run := by
    simp [kotlinSteps]
  intro path hpath
  rw [innerSteps, List.mem_append, List.mem_append, List.mem_append, List.mem_append] at hstep
  rcases hstep with (((hstep | hstep) | hstep) | hstep) | hstep
  · cases settings with
    | none => cases hstep
    | some s =>
      obtain ⟨dir, -, rfl⟩ := List.mem_map.1 hstep
      cases hpath
  · rw [List.mem_singleton.1 hstep] at hpath
    cases hpath
  · exact (hfriends.prepared hstep path (step.intermediatePaths_subset hpath)).mono hstaging
  · rw [List.mem_singleton.1 hstep] at hpath
    have hdir : path ∈ run.generatedDirs := hpath
    rw [hrun] at hdir
    rcases List.mem_cons.1 hdir with rfl | hdir
    · exact ⟨_, hgenerated, path, rfl, Path.startsWith_self path⟩
    · cases settings with
      | none => cases hdir
      | some s =>
        have hall := Kapt.Settings.mem_all_of_mem_outputs hdir
        exact (Kapt.Directories.prepared hall (Path.startsWith_self path)).mono (hprocessing s rfl)
  · cases settings with
    | none => cases hstep
    | some s =>
      have hwritten := step.intermediatePaths_subset hpath
      exact (Kapt.Settings.prepared_of_mem_merging hstep path hwritten).mono (hprocessing s rfl)

/-! ### Around the compiler -/

/-- The steps before the run of the compiler. -/
def stepsBefore (settings : Option Kapt.Settings) (friends : Friends.Staged) (generated : Path) : List Step :=
  (settings.map (·.dirs.preparation)).getD [] ++ [.makeCleanDir generated] ++ friends.steps

/-- The steps after the run of the compiler. -/
def stepsAfter (ws : Workspace) (unit : SourceUnit) (settings : Option Kapt.Settings) : List Step :=
  (settings.map fun s => s.afterCompiler ws.root unit.target unit.outputPaths.classesDir ws.ignored).getD []

theorem kotlinSteps_eq_around : kotlinSteps ws unit settings friends generated run =
    stepsBefore settings friends generated ++ .kotlinc run :: stepsAfter ws unit settings := by
  rw [kotlinSteps, stepsBefore, stepsAfter, List.append_assoc _ [_], List.singleton_append]

/-- Directories are cleaned first, and then friends are staged. -/
theorem exists_stepsBefore_eq (settings : Option Kapt.Settings) (friends : Friends.Staged) (generated : Path) :
    ∃ cleaned : List Path, stepsBefore settings friends generated = cleaned.map .makeCleanDir ++ friends.steps := by
  cases settings with
  | none => exact ⟨[generated], rfl⟩
  | some s => exact ⟨s.dirs.all ++ [generated], by rw [List.map_append]; rfl⟩

theorem mem_stepsBefore {step : Step} (h : step ∈ stepsBefore settings friends generated) :
    (∃ dir, step = .makeCleanDir dir) ∨ step ∈ friends.steps := by
  obtain ⟨cleaned, hsteps⟩ := exists_stepsBefore_eq settings friends generated
  rw [hsteps, List.mem_append] at h
  rcases h with h | h
  · obtain ⟨dir, -, rfl⟩ := List.mem_map.1 h
    exact .inl ⟨dir, rfl⟩
  · exact .inr h

theorem exists_settings_of_mem_stepsAfter {step : Step} (h : step ∈ stepsAfter ws unit settings) :
    ∃ s, settings = some s ∧ (step ∈ s.merging ws.root unit.target ws.ignored ∨
      step = .copy s.dirs.classes unit.outputPaths.classesDir .contents) := by
  cases settings with
  | none => cases h
  | some s =>
    rw [stepsAfter, Option.map_some, Option.getD_some, Kapt.Settings.afterCompiler_eq, List.mem_append,
      List.mem_singleton] at h
    exact ⟨s, rfl, h⟩

theorem mem_stepsAfter {step : Step} (h : step ∈ stepsAfter ws unit settings) :
    (∃ source destination, step = .copy source destination .contents) ∨
      (∃ report target, step = .forwardTimings report target) ∨
      ∃ root output sourceDir ignored, step = .zip root output sourceDir ignored := by
  obtain ⟨s, -, hmerging | rfl⟩ := exists_settings_of_mem_stepsAfter h
  · rcases Kapt.Settings.mem_merging hmerging with ⟨dir, -, rfl⟩ | ⟨-, rfl⟩ | rfl
    · exact .inl ⟨_, _, rfl⟩
    · exact .inr (.inl ⟨_, _, rfl⟩)
    · exact .inr (.inr ⟨_, _, _, _, rfl⟩)
  · exact .inl ⟨_, _, rfl⟩

theorem isSetup_of_mem_stepsBefore {dir : Path} (hfriends : Friends.IsStaging dir friends.steps) {step : Step}
    (h : step ∈ stepsBefore settings friends generated) : step.isSetup = true := by
  rcases mem_stepsBefore h with ⟨path, rfl⟩ | h
  · rfl
  · rcases hfriends with hnone | ⟨copies, hsteps, hcopies⟩
    · rw [hnone] at h
      cases h
    · rw [hsteps] at h
      rcases List.mem_cons.1 h with rfl | h
      · rfl
      · obtain ⟨origin, destination, rfl, -⟩ := hcopies step h
        rfl

theorem isFollowUp_of_mem_stepsAfter {step : Step} (h : step ∈ stepsAfter ws unit settings) :
    step.isFollowUp = true := by
  rcases mem_stepsAfter h with ⟨source, destination, rfl⟩ | ⟨report, target, rfl⟩ |
    ⟨root, output, sourceDir, ignored, rfl⟩ <;> rfl

theorem kotlinc_not_mem_stepsBefore {dir : Path} (hfriends : Friends.IsStaging dir friends.steps)
    (other : KotlincRun) : .kotlinc other ∉ stepsBefore settings friends generated := by
  intro h
  cases isSetup_of_mem_stepsBefore hfriends h

theorem kotlinc_not_mem_stepsAfter (other : KotlincRun) : .kotlinc other ∉ stepsAfter ws unit settings := by
  intro h
  cases isFollowUp_of_mem_stepsAfter h

theorem kotlinc_mem : .kotlinc run ∈ kotlinSteps ws unit settings friends generated run := by
  rw [kotlinSteps_eq_around]
  exact List.mem_append_right _ List.mem_cons_self

theorem eq_of_kotlinc_mem {dir : Path} (hfriends : Friends.IsStaging dir friends.steps) {other : KotlincRun}
    (h : .kotlinc other ∈ kotlinSteps ws unit settings friends generated run) : other = run := by
  rw [kotlinSteps_eq_around, List.mem_append, List.mem_cons] at h
  rcases h with h | h | h
  · exact absurd h (kotlinc_not_mem_stepsBefore hfriends other)
  · exact Step.kotlinc.inj h
  · exact absurd h (kotlinc_not_mem_stepsAfter other)

/-! ### What the steps write -/

theorem prepared_or_mem_ofKotlinc {dir : Path} (hfriends : Friends.IsStaging dir friends.steps)
    (hrun : Kotlinc.run ws.root unit toolchain settings friends generated = .ok run) {step : Step}
    (hstep : step ∈ kotlinSteps ws unit settings friends generated run) {path : Path}
    (hpath : path ∈ step.writtenPaths) :
    Prepared (kotlinSteps ws unit settings friends generated run) path ∨
      path ∈ unit.outputPaths.ofKotlinc := by
  obtain ⟨houtput, hlist, hrecord, hgenerated⟩ := kotlincRun_eq_ok hrun
  rw [kotlinSteps_eq, List.mem_append] at hstep
  rcases hstep with hstep | hstep
  · by_cases hinter : path ∈ step.intermediatePaths
    · exact .inl (prepared_of_mem_innerSteps hfriends hgenerated hstep path hinter)
    · right
      cases step with
      | kotlinc other =>
        obtain rfl := eq_of_kotlinc_mem hfriends (by rw [kotlinSteps_eq]; exact List.mem_append_left _ hstep)
        rw [Step.writtenPaths, List.mem_append, List.mem_append, Option.mem_toList, houtput, hlist] at hpath
        rcases hpath with (hpath | hpath) | hpath
        · rw [OutputPaths.ofKotlinc]
          exact List.mem_append_left [unit.outputPaths.kotlinRecord] hpath
        · rw [hrecord] at hpath
          split at hpath
          · rw [← Option.mem_some.1 hpath]
            simp [OutputPaths.ofKotlinc]
          · cases hpath
        · exact absurd hpath hinter
      | _ => exact absurd hpath hinter
  · right
    cases settings with
    | none => cases hstep
    | some s =>
      rw [List.mem_singleton.1 hstep] at hpath
      rw [List.mem_singleton.1 hpath]
      exact List.mem_cons_self

theorem mem_innerSteps_or_last {index : Nat} {step : Step}
    (hstep : (kotlinSteps ws unit settings friends generated run)[index]? = some step) :
    step ∈ innerSteps ws unit settings friends generated run ∨
      index + 1 = (kotlinSteps ws unit settings friends generated run).length ∧
        ∃ source, step = .copy source unit.outputPaths.classesDir .contents := by
  -- the steps are the inner ones and at most one more, so the index tells which it is
  rw [kotlinSteps_eq] at hstep ⊢
  by_cases hindex : index < (innerSteps ws unit settings friends generated run).length
  · rw [List.getElem?_append_left hindex] at hstep
    exact .inl (List.mem_of_getElem? hstep)
  · right
    rw [List.getElem?_append_right (Nat.le_of_not_lt hindex)] at hstep
    cases settings with
    | none => cases hstep
    | some s =>
      rw [Option.map_some, Option.getD_some] at hstep ⊢
      rw [List.getElem?_singleton] at hstep
      split at hstep
      · rename_i hlast
        obtain rfl := Option.some.inj hstep
        refine ⟨?_, s.dirs.classes, rfl⟩
        rw [List.length_append, List.length_singleton]
        omega
      · cases hstep

end Steps

/-! ### The drafts that are made -/

section Make
variable {ws : Workspace} {unit : SourceUnit} {toolchain : Toolchain}

theorem isStaging_friends (ws : Workspace) (unit : SourceUnit) (toolchain : Toolchain) :
    ∃ dir, Friends.IsStaging dir (friends ws unit toolchain).steps :=
  ⟨_, Friends.isStaging_stage ws.root toolchain.friendPaths _⟩

/-- The draft around one run of the Kotlin compiler. -/
def around (ws : Workspace) (unit : SourceUnit) (toolchain : Toolchain) (settings : Option Kapt.Settings)
    (run : KotlincRun) : Draft where
  mode := CompileMode.decide unit toolchain
  steps := kotlinSteps ws unit settings (friends ws unit toolchain)
    (ws.roots.annotationPath unit.target .pluginGenerated) run
  request := ⟨unit.target, toolchain.javacOptions.forMode (CompileMode.decide unit toolchain),
    restInput ws.root unit toolchain settings⟩

theorem steps_around (ws : Workspace) (unit : SourceUnit) (toolchain : Toolchain)
    (settings : Option Kapt.Settings) (run : KotlincRun) :
    (around ws unit toolchain settings run).steps =
      stepsBefore settings (friends ws unit toolchain) (ws.roots.annotationPath unit.target .pluginGenerated) ++
        .kotlinc run :: stepsAfter ws unit settings := kotlinSteps_eq_around

/-- All that a draft can be. -/
theorem cases_of_make {draft : Draft} (h : make ws unit toolchain = .ok draft) :
    (CompileMode.decide unit toolchain = .javaOnly ∧ draft = java unit toolchain) ∨
      (CompileMode.decide unit toolchain).runsKotlinc = true ∧ ∃ settings run,
        Draft.settings ws unit toolchain (CompileMode.decide unit toolchain) = .ok settings ∧
        Kotlinc.run ws.root unit toolchain settings (friends ws unit toolchain)
          (ws.roots.annotationPath unit.target .pluginGenerated) = .ok run ∧
        draft = around ws unit toolchain settings run := by
  rw [make] at h
  split at h
  · rename_i hruns
    obtain ⟨settings, hsettings, h⟩ := bind_eq_ok.1 h
    obtain ⟨run, hrun, h⟩ := bind_eq_ok.1 h
    obtain ⟨-, -, h⟩ := bind_eq_ok.1 h
    obtain rfl := Except.ok.inj h
    exact .inr ⟨hruns, settings, run, hsettings, hrun, rfl⟩
  · rename_i hjava
    obtain rfl := Except.ok.inj h
    refine .inl ⟨?_, rfl⟩
    cases hmode : CompileMode.decide unit toolchain with
    | javaOnly => rfl
    | kotlinWithKapt => exact absurd (by rw [hmode]; rfl) hjava
    | kotlinWithoutKapt => exact absurd (by rw [hmode]; rfl) hjava

/-- A draft has no steps, or those around one run of the Kotlin compiler. -/
theorem make_eq_ok {draft : Draft} (h : make ws unit toolchain = .ok draft) :
    (draft.mode = .javaOnly ∧ draft.steps = []) ∨ ∃ settings run,
      Draft.settings ws unit toolchain draft.mode = .ok settings ∧
        Kotlinc.run ws.root unit toolchain settings (friends ws unit toolchain)
          (ws.roots.annotationPath unit.target .pluginGenerated) = .ok run ∧
        draft.steps = kotlinSteps ws unit settings (friends ws unit toolchain)
          (ws.roots.annotationPath unit.target .pluginGenerated) run := by
  rcases cases_of_make h with ⟨-, rfl⟩ | ⟨-, settings, run, hsettings, hrun, rfl⟩
  · exact .inl ⟨rfl, rfl⟩
  · exact .inr ⟨settings, run, hsettings, hrun, rfl⟩

/-- Where the Kotlin compiler runs, its one run stands between the steps before and after it, and the Java
pass is asked for the rest. -/
theorem exists_run_of_make {draft : Draft} (h : make ws unit toolchain = .ok draft)
    (hmode : draft.mode.runsKotlinc = true) : ∃ settings run,
      Kotlinc.run ws.root unit toolchain settings (friends ws unit toolchain)
          (ws.roots.annotationPath unit.target .pluginGenerated) = .ok run ∧
        draft.steps = stepsBefore settings (friends ws unit toolchain)
          (ws.roots.annotationPath unit.target .pluginGenerated) ++ .kotlinc run :: stepsAfter ws unit settings ∧
        draft.request.input = restInput ws.root unit toolchain settings := by
  rcases cases_of_make h with ⟨-, rfl⟩ | ⟨-, settings, run, -, hrun, rfl⟩
  · cases hmode
  · exact ⟨settings, run, hrun, steps_around ws unit toolchain settings run, rfl⟩

end Make

end Draft

end JarPlan
