import JarPlan.Proofs.Plan.Preparation
/-!
# The order of a plan

A draft checks at its end that nothing is written before it is prepared. The check never fails: the
steps of a draft are in order whatever the workspace, the unit and the toolchain are. A planner for the
Java pass answers for its own steps and for its own errors, and the one for the Java compiler prepares no
directory, so with it the order holds for the whole plan.
-/

namespace JarPlan

namespace Draft

/-! ### Failures -/

def NeverUnprepared {α : Type} (x : Except PlanError α) : Prop :=
  ∀ target index path, x ≠ .error (.unpreparedWrite target index path)

namespace NeverUnprepared

variable {α β : Type}

theorem ok (a : α) : NeverUnprepared (.ok a) := fun _ _ _ h => nomatch h

theorem bind {x : Except PlanError α} {f : α → Except PlanError β} (hx : NeverUnprepared x)
    (hf : ∀ a, x = .ok a → NeverUnprepared (f a)) : NeverUnprepared (x >>= f) := by
  intro target index path h
  rcases bind_eq_error.1 h with h | ⟨a, ha, h⟩
  · exact hx target index path h
  · exact hf a ha target index path h

theorem mapM {f : α → Except PlanError β} (hf : ∀ a, NeverUnprepared (f a)) (l : List α) :
    NeverUnprepared (l.mapM f) := by
  induction l with
  | nil => exact ok []
  | cons a rest ih =>
    rw [List.mapM_cons]
    exact (hf a).bind fun b _ => ih.bind fun bs _ => ok (b :: bs)

theorem map {x : Except PlanError α} (hx : NeverUnprepared x) (f : α → β) : NeverUnprepared (x.map f) := by
  intro target index path h
  cases x with
  | error e => exact hx target index path (congrArg _ (Except.error.inj h))
  | ok a => cases h

end NeverUnprepared

theorem neverUnprepared_parseParameter (parameter : String) :
    NeverUnprepared (Kapt.Settings.parseParameter parameter) := by
  intro target index path h
  rw [Kapt.Settings.parseParameter] at h
  split at h
  · split at h <;> cases h
  · cases h

theorem neverUnprepared_encode (options : SortedMap String String) :
    NeverUnprepared ((OptionToken.encode options).mapError .encoding) := by
  intro target index path h
  cases hencode : OptionToken.encode options with
  | error e =>
    rw [hencode] at h
    cases h
  | ok token =>
    rw [hencode] at h
    cases h

theorem neverUnprepared_require (root : Path) (jar : Option Path) {missing : PlanError}
    (hmissing : ∀ target index path, missing ≠ .unpreparedWrite target index path) :
    NeverUnprepared (Kapt.Settings.require root jar missing) := by
  intro target index path h
  cases jar with
  | none => exact hmissing target index path (Except.error.inj h)
  | some jar => cases h

theorem neverUnprepared_settings (ws : Workspace) (unit : SourceUnit) (toolchain : Toolchain)
    (mode : CompileMode) : NeverUnprepared (settings ws unit toolchain mode) := by
  cases mode with
  | kotlinWithKapt =>
    apply NeverUnprepared.map
    apply (neverUnprepared_require _ _ (by simp)).bind
    intro pluginJar _
    apply (neverUnprepared_require _ _ (by simp)).bind
    intro library _
    apply NeverUnprepared.bind
    · apply (NeverUnprepared.mapM neverUnprepared_parseParameter _).bind
      intro parameters _
      exact .ok _
    · intro options _
      exact .ok _
  | javaOnly => exact .ok none
  | kotlinWithoutKapt => exact .ok none

theorem neverUnprepared_kotlincRun (root : Path) (unit : SourceUnit) (toolchain : Toolchain)
    (settings : Option Kapt.Settings) (friends : Friends.Staged) (generated : Path) :
    NeverUnprepared (Kotlinc.run root unit toolchain settings friends generated) := by
  have hprocessing : NeverUnprepared (Kotlinc.processingArguments root settings) := by
    cases settings with
    | none => exact .ok []
    | some s =>
      apply NeverUnprepared.bind
      · apply (neverUnprepared_encode s.options).bind
        intro options _
        apply (neverUnprepared_encode s.javacArguments).bind
        intro javacArguments _
        exact .ok _
      · intro options _
        exact .ok _
  apply NeverUnprepared.bind
  · apply hprocessing.bind
    intro processing _
    exact .ok _
  · intro arguments _
    exact .ok _

theorem neverUnprepared_javac (target : Target) (options : JavacOptions) (input : JavaInput) :
    NeverUnprepared (Javac.planner target options input) := by
  rw [Javac.planner]
  split
  · exact .ok []
  · apply NeverUnprepared.bind
    · apply NeverUnprepared.bind
      · rw [Javac.processingArguments]
        split
        · exact .ok _
        · apply (NeverUnprepared.mapM (fun parameter => ?_) _).bind
          · intro parameters _
            exact .ok _
          · intro target index path h
            rw [Javac.parameterArgument] at h
            split at h <;> cases h
      · intro processing _
        exact .ok _
    · intro arguments _
      exact .ok _

/-! ### The order of a draft -/

section Draft
variable {ws : Workspace} {unit : SourceUnit} {toolchain : Toolchain}

theorem checkOrder_eq_ok (t : Target) {steps : List Step} (h : IsPhased steps) :
    checkOrder t steps = .ok () := by
  rw [checkOrder, firstUnpreparedWrite?_eq_none h.preparesFirst]

theorem neverUnprepared_make : NeverUnprepared (make ws unit toolchain) := by
  rw [make]
  split
  · apply (neverUnprepared_settings ws unit toolchain _).bind
    intro settings _
    apply (neverUnprepared_kotlincRun ws.root unit toolchain settings _ _).bind
    intro run _
    obtain ⟨dir, hstaging⟩ := isStaging_friends ws unit toolchain
    dsimp only
    rw [checkOrder_eq_ok unit.target (isPhased_kotlinSteps hstaging.isPhased)]
    exact .ok _
  · exact .ok _

theorem isPhased_of_make {draft : Draft} (h : make ws unit toolchain = .ok draft) :
    IsPhased draft.steps := by
  rcases make_eq_ok h with ⟨-, hsteps⟩ | ⟨settings, run, -, -, hsteps⟩
  · rw [hsteps]
    exact .nil
  · obtain ⟨dir, hstaging⟩ := isStaging_friends ws unit toolchain
    rw [hsteps]
    exact isPhased_kotlinSteps hstaging.isPhased

/-- The check of the order never stands in the way of a draft. -/
theorem make_of_run {settings : Option Kapt.Settings} {run : KotlincRun}
    (hmode : (CompileMode.decide unit toolchain).runsKotlinc = true)
    (hsettings : Draft.settings ws unit toolchain (CompileMode.decide unit toolchain) = .ok settings)
    (hrun : Kotlinc.run ws.root unit toolchain settings (friends ws unit toolchain)
      (ws.roots.annotationPath unit.target .pluginGenerated) = .ok run) :
    make ws unit toolchain = .ok (around ws unit toolchain settings run) := by
  obtain ⟨dir, hstaging⟩ := isStaging_friends ws unit toolchain
  rw [make, if_pos hmode, kotlin, hsettings]
  refine bind_eq_ok.2 ⟨settings, rfl, bind_eq_ok.2 ⟨run, hrun, bind_eq_ok.2 ⟨(), ?_, rfl⟩⟩⟩
  exact checkOrder_eq_ok unit.target (isPhased_kotlinSteps hstaging.isPhased)

/-- What a step writes is prepared before it, save for the outputs of the unit; what it writes on the
way to them is prepared in any case, except by a last step that fills the unit's own directory. -/
theorem preparedBefore_of_make {draft : Draft} (h : make ws unit toolchain = .ok draft) {index : Nat}
    {step : Step} (hstep : draft.steps[index]? = some step) :
    (∀ path ∈ step.writtenPaths,
        PreparedBefore draft.steps index path ∨ path ∈ unit.outputPaths.ofKotlinc) ∧
      ((∀ path ∈ step.intermediatePaths, PreparedBefore draft.steps index path) ∨
        index + 1 = draft.steps.length ∧
          ∃ source, step = .copy source unit.outputPaths.classesDir .contents) := by
  have horder := (isPhased_of_make h).preparesFirst
  rcases make_eq_ok h with ⟨-, hsteps⟩ | ⟨settings, run, -, hrun, hsteps⟩
  · rw [hsteps] at hstep
    cases hstep
  · obtain ⟨dir, hstaging⟩ := isStaging_friends ws unit toolchain
    rw [hsteps] at hstep horder ⊢
    constructor
    · intro path hpath
      have hmem := List.mem_of_getElem? hstep
      rcases prepared_or_mem_ofKotlinc hstaging hrun hmem hpath with hprepared | hown
      · exact .inl (hprepared.before horder hstep hpath)
      · exact .inr hown
    · rcases mem_innerSteps_or_last hstep with hinner | hlast
      · left
        intro path hpath
        have hprepared := prepared_of_mem_innerSteps hstaging (kotlincRun_eq_ok hrun).2.2.2 hinner path hpath
        exact hprepared.before horder hstep (step.intermediatePaths_subset hpath)
      · exact .inr hlast

end Draft

end Draft

/-! ### Whole plans -/

theorem preparedDir?_of_javac {target : Target} {options : JavacOptions} {input : JavaInput}
    {steps : List Step} (h : Javac.planner target options input = .ok steps) :
    ∀ step ∈ steps, step.preparedDir? = none := by
  rw [Javac.planner] at h
  split at h
  · obtain rfl := Except.ok.inj h
    simp
  · obtain ⟨arguments, -, h⟩ := bind_eq_ok.1 h
    obtain rfl := Except.ok.inj h
    intro step hstep
    rw [List.mem_singleton.1 hstep]
    rfl

section Completion
variable {ws : Workspace} {unit : SourceUnit} {toolchain : Toolchain} {planner : JavaPlanner}

/-- A planner is asked for what the draft requests and for nothing else. -/
theorem Draft.plan_of_make {draft : Draft} (h : Draft.make ws unit toolchain = .ok draft) (planner : JavaPlanner) :
    Plan.make ws unit toolchain planner =
      (planner draft.request.target draft.request.options draft.request.input).map (draft.complete unit) := by
  rw [Plan.make_eq, h]
  change Except.bind (planner _ _ _) _ = _
  cases planner draft.request.target draft.request.options draft.request.input with
  | error e => rfl
  | ok javaSteps => rfl

/-- A plan is completed from a draft, by the steps that the planner gives for its request. -/
theorem Plan.make_eq_ok {plan : Plan} : Plan.make ws unit toolchain planner = .ok plan ↔
    ∃ draft javaSteps, Draft.make ws unit toolchain = .ok draft ∧
      planner draft.request.target draft.request.options draft.request.input = .ok javaSteps ∧
      plan = draft.complete unit javaSteps := by
  rw [Plan.make_eq, bind_eq_ok]
  constructor
  · rintro ⟨draft, hdraft, h⟩
    obtain ⟨javaSteps, hjava, h⟩ := bind_eq_ok.1 h
    exact ⟨draft, javaSteps, hdraft, hjava, (Except.ok.inj h).symm⟩
  · rintro ⟨draft, javaSteps, hdraft, hjava, rfl⟩
    exact ⟨draft, hdraft, bind_eq_ok.2 ⟨javaSteps, hjava, rfl⟩⟩

/-- A plan fails with the draft or with the planner. -/
theorem Plan.make_eq_error {e : PlanError} : Plan.make ws unit toolchain planner = .error e ↔
    Draft.make ws unit toolchain = .error e ∨
      ∃ draft, Draft.make ws unit toolchain = .ok draft ∧
        planner draft.request.target draft.request.options draft.request.input = .error e := by
  rw [Plan.make_eq, bind_eq_error]
  simp only [bind_eq_error, pure, Except.pure, reduceCtorEq, and_false, exists_false, or_false]

end Completion

/-- A plan never fails with an unprepared write that is not an error of the planner for the Java pass. The
steps before those of this planner prepare all directories first and write into nothing unprepared but
the outputs of the unit. With the planner for the Java compiler the whole plan is in order. -/
theorem plan_prepares_before_writing (ws : Workspace) (unit : SourceUnit) (toolchain : Toolchain) :
    (∀ planner target index path,
      Plan.make ws unit toolchain planner = .error (.unpreparedWrite target index path) →
      ∃ draft, Draft.make ws unit toolchain = .ok draft ∧
        planner draft.request.target draft.request.options draft.request.input =
          .error (.unpreparedWrite target index path)) ∧
    (∀ planner plan, Plan.make ws unit toolchain planner = .ok plan →
      ∃ draft javaSteps, Draft.make ws unit toolchain = .ok draft ∧
        planner draft.request.target draft.request.options draft.request.input = .ok javaSteps ∧
        plan.steps.steps = draft.steps ++ javaSteps ∧ PreparesFirst draft.steps ∧
        ∀ (index : Nat) (step : Step), draft.steps[index]? = some step →
          (∀ path ∈ step.writtenPaths,
            PreparedBefore draft.steps index path ∨ path ∈ unit.outputPaths.ofKotlinc) ∧
          ((∀ path ∈ step.intermediatePaths, PreparedBefore draft.steps index path) ∨
            index + 1 = draft.steps.length ∧
              ∃ source, step = .copy source unit.outputPaths.classesDir .contents)) ∧
    (∀ plan, Plan.make ws unit toolchain Javac.planner = .ok plan →
      plan.steps.firstUnpreparedWrite? = none) ∧
    ∀ target index path,
      Plan.make ws unit toolchain Javac.planner ≠ .error (.unpreparedWrite target index path) := by
  have hplanner (planner : JavaPlanner) (target : String) (index : Nat) (path : Path)
      (h : Plan.make ws unit toolchain planner = .error (.unpreparedWrite target index path)) :
      ∃ draft, Draft.make ws unit toolchain = .ok draft ∧
        planner draft.request.target draft.request.options draft.request.input =
          .error (.unpreparedWrite target index path) := by
    rcases Plan.make_eq_error.1 h with h | h
    · exact absurd h (Draft.neverUnprepared_make target index path)
    · exact h
  -- the second part holds of any planner; the last two need that no step of javac prepares
  refine ⟨hplanner, ?_, ?_, ?_⟩
  · intro planner plan h
    obtain ⟨draft, javaSteps, hdraft, hjava, rfl⟩ := Plan.make_eq_ok.1 h
    refine ⟨draft, javaSteps, hdraft, hjava, rfl, (Draft.isPhased_of_make hdraft).preparesFirst, ?_⟩
    intro index step hstep
    exact Draft.preparedBefore_of_make hdraft hstep
  · intro plan h
    obtain ⟨draft, javaSteps, hdraft, hjava, rfl⟩ := Plan.make_eq_ok.1 h
    have hphased := (Draft.isPhased_of_make hdraft).append (preparedDir?_of_javac hjava)
    exact firstUnpreparedWrite?_eq_none hphased.preparesFirst
  · intro target index path h
    obtain ⟨draft, -, h⟩ := hplanner Javac.planner target index path h
    exact Draft.neverUnprepared_javac _ _ _ target index path h

/-! A unit with processors, timings and a friend whose name has a comma, so that it takes every kind of step. -/

def kaptWorkspace : Workspace where
  root := ⟨"/r"⟩
  roots := .below ⟨"out"⟩

def kaptUnit : SourceUnit :=
  (SourceUnit.standard ⟨"lib", "a", ∅⟩ kaptWorkspace.roots).withSources [⟨"A.kt"⟩, ⟨"B.java"⟩]

def kaptToolchain : Toolchain where
  standardLibrary := some ⟨"stdlib.jar"⟩
  processingJar := some ⟨"kapt.jar"⟩
  friendPaths := [⟨"out/a,b.jar"⟩]
  javacOptions := { processing := { plugins := [⟨.ofList ["P"], [⟨"p.jar"⟩]⟩] } }
  reportsTimings := true

/-- A unit whose processors the Kotlin compiler runs has a plan as soon as the run of it can be put
together: for the Java pass there are no processors left whose parameters could be malformed. -/
theorem exists_plan_of_run (ws : Workspace) (unit : SourceUnit) (toolchain : Toolchain)
    (hmode : CompileMode.decide unit toolchain = .kotlinWithKapt)
    (hrun : (do
      let settings ← Draft.settings ws unit toolchain .kotlinWithKapt
      Kotlinc.run ws.root unit toolchain settings (Draft.friends ws unit toolchain)
        (ws.roots.annotationPath unit.target .pluginGenerated)).toBool = true) :
    ∃ draft plan, Draft.make ws unit toolchain = .ok draft ∧
      Plan.make ws unit toolchain Javac.planner = .ok plan ∧ plan.mode = .kotlinWithKapt := by
  obtain ⟨run, hrun⟩ := exists_ok_of_toBool hrun
  obtain ⟨settings, hsettings, hrun⟩ := bind_eq_ok.1 hrun
  rw [← hmode] at hsettings
  have hdraft := Draft.make_of_run (by rw [hmode]; rfl) hsettings hrun
  have hjava : ∃ javaSteps, Javac.planner unit.target
      (toolchain.javacOptions.forMode (CompileMode.decide unit toolchain))
      (Draft.restInput ws.root unit toolchain settings) = .ok javaSteps := by
    rw [hmode, Javac.planner]
    split <;> exact ⟨_, rfl⟩
  obtain ⟨javaSteps, hjava⟩ := hjava
  exact ⟨_, _, hdraft, Plan.make_eq_ok.2 ⟨_, javaSteps, hdraft, hjava, rfl⟩, hmode⟩

theorem exists_kaptPlan : ∃ draft plan, Draft.make kaptWorkspace kaptUnit kaptToolchain = .ok draft ∧
    Plan.make kaptWorkspace kaptUnit kaptToolchain Javac.planner = .ok plan ∧ plan.mode = .kotlinWithKapt :=
  exists_plan_of_run kaptWorkspace kaptUnit kaptToolchain (by decide +kernel) (by decide +kernel)

/-- A planner that reports an unprepared write of its own. -/
def refusingPlanner : JavaPlanner := fun _ _ _ => .error (.unpreparedWrite "a" 0 ⟨"out"⟩)

theorem refused_by_refusingPlanner {ws : Workspace} {unit : SourceUnit} {toolchain : Toolchain} {draft : Draft}
    (h : Draft.make ws unit toolchain = .ok draft) :
    Plan.make ws unit toolchain refusingPlanner = .error (.unpreparedWrite "a" 0 ⟨"out"⟩) :=
  Plan.make_eq_error.2 (.inr ⟨draft, h, rfl⟩)

theorem kaptUnit_prepares_before_writing :
    (Plan.make kaptWorkspace kaptUnit kaptToolchain refusingPlanner =
        .error (.unpreparedWrite "a" 0 ⟨"out"⟩) ∧
      ∃ draft, Draft.make kaptWorkspace kaptUnit kaptToolchain = .ok draft) ∧
    ∃ plan, Plan.make kaptWorkspace kaptUnit kaptToolchain Javac.planner = .ok plan ∧
      plan.mode = .kotlinWithKapt ∧ plan.steps.firstUnpreparedWrite? = none ∧
      ∃ own javaSteps, plan.steps.steps = own ++ javaSteps ∧ PreparesFirst own := by
  obtain ⟨draft, plan, hdraft, hplan, hmode⟩ := exists_kaptPlan
  have hrefused := refused_by_refusingPlanner hdraft
  obtain ⟨hplanner, hsteps, hjavac, -⟩ := plan_prepares_before_writing kaptWorkspace kaptUnit kaptToolchain
  obtain ⟨draft', hmake, -⟩ := hplanner refusingPlanner _ _ _ hrefused
  obtain ⟨own, javaSteps, -, -, happend, horder, -⟩ := hsteps Javac.planner plan hplan
  exact ⟨⟨hrefused, draft', hmake⟩, plan, hplan, hmode, hjavac plan hplan, own.steps, javaSteps, happend,
    horder⟩

/-- What a planner reports is passed on as it is, so there are plans that fail with an unprepared write. -/
theorem not_forall_planner_ne_unpreparedWrite :
    ¬ ∀ (planner : JavaPlanner) (target : String) (index : Nat) (path : Path),
      Plan.make kaptWorkspace kaptUnit kaptToolchain planner ≠ .error (.unpreparedWrite target index path) := by
  intro hnever
  obtain ⟨draft, -, hdraft, -⟩ := exists_kaptPlan
  exact hnever refusingPlanner _ _ _ (refused_by_refusingPlanner hdraft)

end JarPlan
