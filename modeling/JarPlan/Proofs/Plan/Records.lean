import JarPlan.Proofs.Plan.Phases
/-!
# Which records are registered

The records of a plan are read off its steps, while each run of a compiler is told by itself where to write
its record. Both name the same files: a record belongs to a plan exactly where its compiler runs, and with
the planner for the Java compiler what is registered is what the runs were told to write. Before planning one
can only say what the unit allows, and that is more in one case, where no source is left for the Java
compiler.
-/

namespace JarPlan

@[simp] theorem Draft.records_complete (draft : Draft) (unit : SourceUnit) (javaSteps : List Step) :
    (draft.complete unit javaSteps).records = .ofSteps unit (draft.steps ++ javaSteps) := rfl

/-- Where the compiler records the classes it used. -/
def OutputPaths.recordOf (o : OutputPaths) : Compiler → Path
  | .java => o.javaRecord
  | .kotlin => o.kotlinRecord

theorem OutputPaths.javaRecord_beq_kotlinRecord (o : OutputPaths) : (o.javaRecord == o.kotlinRecord) = false := by
  rw [Bool.eq_false_iff]
  intro h
  have hnames := Path.fileName?_congr h
  rw [javaRecord, kotlinRecord, Path.fileName?_entry _ (by decide), Path.fileName?_entry _ (by decide)] at hnames
  exact absurd hnames (by decide)

/-- The record that a step is told to write. -/
def Step.record? : Step → Option Path
  | kotlinc run => run.record
  | javac run => run.record
  | _ => none

theorem Step.record?_of_compiler? {step : Step} (h : step.compiler? = none) : step.record? = none := by
  cases step with
  | kotlinc run => cases h
  | javac run => cases h
  | _ => rfl

/-! ### Runs of a compiler -/

/-- The steps that run the compiler. -/
def runsOf (compiler : Compiler) (steps : List Step) : List Step :=
  steps.filter fun step => step.compiler? = some compiler

/-- The records that the runs of the compiler are told to write. -/
def carriedRecords (compiler : Compiler) (steps : List Step) : List Path :=
  (runsOf compiler steps).filterMap Step.record?

theorem runsOf_append (compiler : Compiler) (front back : List Step) :
    runsOf compiler (front ++ back) = runsOf compiler front ++ runsOf compiler back :=
  List.filter_append front back

theorem runsOf_eq_nil {compiler : Compiler} {steps : List Step}
    (h : ∀ step ∈ steps, step.compiler? ≠ some compiler) : runsOf compiler steps = [] := by
  rw [runsOf, List.filter_eq_nil_iff]
  intro step hstep
  simpa using h step hstep

theorem runsOf_ne_nil_iff {compiler : Compiler} {steps : List Step} :
    runsOf compiler steps ≠ [] ↔ ∃ step ∈ steps, step.compiler? = some compiler := by
  constructor
  · intro h
    obtain ⟨step, hstep⟩ := List.exists_mem_of_ne_nil _ h
    obtain ⟨hmem, hcompiler⟩ := List.mem_filter.1 hstep
    exact ⟨step, hmem, of_decide_eq_true hcompiler⟩
  · intro h hnil
    obtain ⟨step, hmem, hcompiler⟩ := h
    have hstep : step ∈ runsOf compiler steps := List.mem_filter.2 ⟨hmem, decide_eq_true hcompiler⟩
    rw [hnil] at hstep
    cases hstep

/-- A record belongs to the set made from steps exactly where the steps run its compiler. -/
theorem UsageRecords.get?_ofSteps (unit : SourceUnit) (steps : List Step) (compiler : Compiler) :
    (ofSteps unit steps).get? compiler =
      if runsOf compiler steps = [] then none else some (unit.outputPaths.recordOf compiler) := by
  have hany : steps.any (fun step => step.compiler? = some compiler) = true ↔ runsOf compiler steps ≠ [] := by
    rw [runsOf_ne_nil_iff, List.any_eq_true]
    simp
  cases compiler with
  | java =>
    by_cases hruns : runsOf .java steps = []
    · rw [if_pos hruns, get?, ofSteps, if_neg fun h => hany.1 h hruns]
    · rw [if_neg hruns, get?, ofSteps, if_pos (hany.2 hruns), OutputPaths.recordOf]
  | kotlin =>
    by_cases hruns : runsOf .kotlin steps = []
    · rw [if_pos hruns, get?, ofSteps, if_neg fun h => hany.1 h hruns]
    · rw [if_neg hruns, get?, ofSteps, if_pos (hany.2 hruns), OutputPaths.recordOf]

theorem UsageRecords.get?_ofSteps_eq_none_iff {unit : SourceUnit} {steps : List Step} {compiler : Compiler} :
    (ofSteps unit steps).get? compiler = none ↔ runsOf compiler steps = [] := by
  rw [get?_ofSteps]
  split
  · exact iff_of_true rfl ‹_›
  · exact iff_of_false (Option.some_ne_none _) ‹_›

theorem UsageRecords.get?_ofSteps_eq_some_iff {unit : SourceUnit} {steps : List Step} {compiler : Compiler}
    {path : Path} : (ofSteps unit steps).get? compiler = some path ↔
      path = unit.outputPaths.recordOf compiler ∧ runsOf compiler steps ≠ [] := by
  rw [get?_ofSteps]
  split
  · rename_i hnone
    exact iff_of_false (Option.some_ne_none path).symm fun h => h.2 hnone
  · rename_i hruns
    rw [Option.some_inj, eq_comm]
    exact iff_self_and.2 fun _ => hruns

/-! ### Runs in a plan -/

/-- There is at most one run of the compiler, and it is told to record where the unit says, if at all. -/
def RecordsAs (unit : SourceUnit) (compiler : Compiler) (runs : List Step) : Prop :=
  runs = [] ∨ ∃ step, runs = [step] ∧
    step.record? = if unit.tracksUsage then some (unit.outputPaths.recordOf compiler) else none

theorem CompileMode.runsKotlinc_decide (unit : SourceUnit) (toolchain : Toolchain) :
    (CompileMode.decide unit toolchain).runsKotlinc = unit.hasKotlinInput := by
  rw [CompileMode.decide]
  cases hinput : unit.hasKotlinInput with
  | false => rfl
  | true =>
    simp only [Bool.not_true, Bool.false_eq_true, if_false]
    split <;> rfl

/-- The planner makes one run over all the sources, or none where there are no sources. -/
theorem Javac.planner_eq_ok {target : Target} {options : JavacOptions} {input : JavaInput} {steps : List Step}
    (h : planner target options input = .ok steps) :
    (input.sources = [] ∧ steps = []) ∨ input.sources ≠ [] ∧ ∃ run, steps = [.javac run] ∧
      run.sources = input.sources ∧
      run.record = if input.tracksUsage then some input.outputPaths.javaRecord else none := by
  rw [planner] at h
  split at h
  · rename_i hnone
    exact .inl ⟨List.isEmpty_iff.1 hnone, (Except.ok.inj h).symm⟩
  · rename_i hsome
    obtain ⟨arguments, -, h⟩ := bind_eq_ok.1 h
    exact .inr ⟨fun hnone => hsome (List.isEmpty_iff.2 hnone), _, (Except.ok.inj h).symm, rfl, rfl⟩

namespace Draft

variable {ws : Workspace} {unit : SourceUnit} {toolchain : Toolchain} {draft : Draft}

theorem runsOf_around (ws : Workspace) (unit : SourceUnit) (toolchain : Toolchain)
    (settings : Option Kapt.Settings) (run : KotlincRun) (compiler : Compiler) :
    runsOf compiler (around ws unit toolchain settings run).steps = runsOf compiler [.kotlinc run] := by
  obtain ⟨dir, hstaging⟩ := isStaging_friends ws unit toolchain
  have hbefore : runsOf compiler (stepsBefore settings (Draft.friends ws unit toolchain)
      (ws.roots.annotationPath unit.target .pluginGenerated)) = [] := by
    apply runsOf_eq_nil
    intro step hstep
    rw [Step.compiler?_of_isSetup (isSetup_of_mem_stepsBefore hstaging hstep)]
    exact (Option.some_ne_none compiler).symm
  have hafter : runsOf compiler (stepsAfter ws unit settings) = [] := by
    apply runsOf_eq_nil
    intro step hstep
    rw [Step.compiler?_of_isFollowUp (isFollowUp_of_mem_stepsAfter hstep)]
    exact (Option.some_ne_none compiler).symm
  rw [steps_around, ← List.singleton_append, runsOf_append, runsOf_append, hbefore, hafter, List.nil_append,
    List.append_nil]

theorem runsOf_java (h : make ws unit toolchain = .ok draft) : runsOf .java draft.steps = [] := by
  rcases cases_of_make h with ⟨-, rfl⟩ | ⟨-, settings, run, -, -, rfl⟩
  · rfl
  · rw [runsOf_around]
    rfl

theorem runsOf_kotlin (h : make ws unit toolchain = .ok draft) :
    RecordsAs unit .kotlin (runsOf .kotlin draft.steps) ∧
      (runsOf .kotlin draft.steps = [] ↔ unit.hasKotlinInput = false) := by
  rw [← CompileMode.runsKotlinc_decide unit toolchain]
  rcases cases_of_make h with ⟨hmode, rfl⟩ | ⟨hruns, settings, run, -, hrun, rfl⟩
  · rw [hmode]
    exact ⟨.inl rfl, iff_of_true rfl rfl⟩
  · rw [runsOf_around, hruns]
    refine ⟨.inr ⟨.kotlinc run, rfl, (kotlincRun_eq_ok hrun).2.2.1⟩, iff_of_false ?_ ?_⟩
    · exact List.cons_ne_nil _ _
    · exact Bool.noConfusion

/-- In every mode the Java pass is told where the unit records. -/
theorem request_records (h : make ws unit toolchain = .ok draft) :
    draft.request.input.outputPaths = unit.outputPaths ∧
      draft.request.input.tracksUsage = unit.tracksUsage := by
  rcases cases_of_make h with ⟨-, rfl⟩ | ⟨-, settings, run, -, -, rfl⟩
  · exact ⟨rfl, rfl⟩
  · exact ⟨rfl, rfl⟩

end Draft

section Javac
variable {ws : Workspace} {unit : SourceUnit} {toolchain : Toolchain} {draft : Draft} {javaSteps : List Step}
  (hdraft : Draft.make ws unit toolchain = .ok draft)
  (hjava : Javac.planner draft.request.target draft.request.options draft.request.input = .ok javaSteps)
include hjava

theorem runsOf_kotlin_of_javac : runsOf .kotlin (draft.steps ++ javaSteps) = runsOf .kotlin draft.steps := by
  have hnone : runsOf .kotlin javaSteps = [] := by
    rcases Javac.planner_eq_ok hjava with ⟨-, rfl⟩ | ⟨-, run, rfl, -⟩ <;> rfl
  rw [runsOf_append, hnone, List.append_nil]

include hdraft

theorem recordsAs_of_javac (compiler : Compiler) :
    RecordsAs unit compiler (runsOf compiler (draft.steps ++ javaSteps)) := by
  cases compiler with
  | java =>
    obtain ⟨hpaths, htracks⟩ := Draft.request_records hdraft
    rw [runsOf_append, Draft.runsOf_java hdraft, List.nil_append]
    rcases Javac.planner_eq_ok hjava with ⟨-, rfl⟩ | ⟨-, run, rfl, -, hrecord⟩
    · exact .inl rfl
    · rw [hpaths, htracks] at hrecord
      exact .inr ⟨.javac run, rfl, hrecord⟩
  | kotlin =>
    rw [runsOf_kotlin_of_javac hjava]
    exact (Draft.runsOf_kotlin hdraft).1

end Javac

/-! ### What is registered -/

section Registered
variable {unit : SourceUnit} {steps : List Step}

theorem carriedRecords_eq {compiler : Compiler} (h : RecordsAs unit compiler (runsOf compiler steps)) :
    carriedRecords compiler steps =
      if unit.tracksUsage then ((UsageRecords.ofSteps unit steps).get? compiler).toList else [] := by
  rw [carriedRecords, UsageRecords.get?_ofSteps]
  rcases h with hnone | ⟨step, hstep, hrecord⟩
  · rw [hnone, if_pos rfl, List.filterMap_nil, Option.toList_none, ite_self]
  · rw [hstep, if_neg (List.cons_ne_nil step []), List.filterMap_cons, hrecord]
    cases unit.tracksUsage with
    | false => rfl
    | true => rfl

theorem registered_eq_carriedRecords (h : ∀ compiler, RecordsAs unit compiler (runsOf compiler steps)) :
    (UsageRecords.ofSteps unit steps).registered unit =
      carriedRecords .java steps ++ carriedRecords .kotlin steps := by
  rw [carriedRecords_eq (h .java), carriedRecords_eq (h .kotlin), UsageRecords.registered, UsageRecords.paths,
    UsageRecords.entries, List.map_append, List.map_map, List.map_map]
  split
  · exact congrArg₂ _ (List.map_id _) (List.map_id _)
  · rfl

/-- The two records are different files, so no path is registered twice. -/
theorem pairwise_registered (unit : SourceUnit) (steps : List Step) :
    ((UsageRecords.ofSteps unit steps).registered unit).Pairwise fun p q => (p == q) = false := by
  have hdistinct := OutputPaths.javaRecord_beq_kotlinRecord unit.outputPaths
  rw [UsageRecords.registered, UsageRecords.paths, UsageRecords.entries, UsageRecords.ofSteps]
  split
  · split <;> split <;> simp [hdistinct]
  · exact List.Pairwise.nil

theorem record?_eq_none (h : ∀ compiler, RecordsAs unit compiler (runsOf compiler steps))
    (htracks : unit.tracksUsage = false) {step : Step} (hstep : step ∈ steps) : step.record? = none := by
  cases hcompiler : step.compiler? with
  | none => exact Step.record?_of_compiler? hcompiler
  | some compiler =>
    have hmem : step ∈ runsOf compiler steps := List.mem_filter.2 ⟨hstep, decide_eq_true hcompiler⟩
    rcases h compiler with hnone | ⟨other, hother, hrecord⟩
    · rw [hnone] at hmem
      cases hmem
    · rw [hother, List.mem_singleton] at hmem
      rw [hmem, hrecord, htracks]
      rfl

theorem UsageRecords.get?_ofUnit_eq_some_iff {compiler : Compiler} {path : Path} :
    (ofUnit unit).get? compiler = some path ↔
      path = unit.outputPaths.recordOf compiler ∧ (compiler = .kotlin → unit.hasKotlinInput = true) := by
  cases compiler with
  | java =>
    have hjava : (ofUnit unit).get? .java = some (unit.outputPaths.recordOf .java) := rfl
    rw [hjava, Option.some_inj, eq_comm]
    exact iff_self_and.2 fun _ => Compiler.noConfusion
  | kotlin =>
    have hkotlin : (ofUnit unit).get? .kotlin =
        if unit.hasKotlinInput then some (unit.outputPaths.recordOf .kotlin) else none := rfl
    rw [hkotlin]
    split
    · rename_i hinput
      rw [Option.some_inj, eq_comm]
      exact iff_self_and.2 fun _ _ => hinput
    · rename_i hinput
      exact iff_of_false (Option.some_ne_none path).symm fun h => hinput (h.2 rfl)

theorem runsOf_java_eq_nil_iff : runsOf .java steps = [] ↔ ∀ run, .javac run ∉ steps := by
  rw [← not_iff_not, ← Ne, runsOf_ne_nil_iff, not_forall]
  constructor
  · intro h
    obtain ⟨step, hstep, hcompiler⟩ := h
    cases step with
    | javac run => exact ⟨run, not_not_intro hstep⟩
    | kotlinc run => cases hcompiler
    | _ => cases hcompiler
  · intro h
    obtain ⟨run, hrun⟩ := h
    exact ⟨.javac run, not_not.1 hrun, rfl⟩

end Registered

/-- A record belongs to a plan exactly where the plan runs its compiler. With the planner for the Java
compiler, what is registered is what the runs are told to write, and all that the unit allows, save for the
record of a Java compiler that does not run. -/
theorem records_follow_compilers (ws : Workspace) (unit : SourceUnit) (toolchain : Toolchain) :
    (∀ planner plan, Plan.make ws unit toolchain planner = .ok plan → ∀ compiler path,
      plan.records.get? compiler = some path ↔
        path = unit.outputPaths.recordOf compiler ∧
          ∃ step ∈ plan.steps.steps, step.compiler? = some compiler) ∧
    ∀ plan, Plan.make ws unit toolchain Javac.planner = .ok plan →
      plan.records.registered unit =
        carriedRecords .java plan.steps.steps ++ carriedRecords .kotlin plan.steps.steps ∧
      (plan.records.registered unit).Pairwise (fun p q => (p == q) = false) ∧
      (unit.tracksUsage = false →
        plan.records.registered unit = [] ∧ ∀ step ∈ plan.steps.steps, step.record? = none) ∧
      (∀ compiler path, plan.records.get? compiler = some path →
        (UsageRecords.ofUnit unit).get? compiler = some path) ∧
      ∀ compiler path, (UsageRecords.ofUnit unit).get? compiler = some path →
        (plan.records.get? compiler = none ↔ compiler = .java ∧ ∀ run, .javac run ∉ plan.steps.steps) := by
  constructor
  · intro planner plan hplan compiler path
    obtain ⟨draft, javaSteps, -, -, rfl⟩ := Plan.make_eq_ok.1 hplan
    rw [Draft.records_complete, UsageRecords.get?_ofSteps_eq_some_iff, runsOf_ne_nil_iff]
    rfl
  · intro plan hplan
    obtain ⟨draft, javaSteps, hdraft, hjava, rfl⟩ := Plan.make_eq_ok.1 hplan
    have hrecords := recordsAs_of_javac hdraft hjava
    have hkotlin : runsOf .kotlin (draft.steps ++ javaSteps) = [] ↔ unit.hasKotlinInput = false := by
      rw [runsOf_kotlin_of_javac hjava]
      exact (Draft.runsOf_kotlin hdraft).2
    rw [Draft.records_complete]
    refine ⟨registered_eq_carriedRecords hrecords, pairwise_registered unit _, ?_, ?_, ?_⟩
    · intro htracks
      refine ⟨?_, fun step hstep => record?_eq_none hrecords htracks hstep⟩
      exact if_neg (Bool.eq_false_iff.1 htracks)
    · intro compiler path hpath
      obtain ⟨hrecord, hruns⟩ := UsageRecords.get?_ofSteps_eq_some_iff.1 hpath
      refine UsageRecords.get?_ofUnit_eq_some_iff.2 ⟨hrecord, ?_⟩
      rintro rfl
      rw [← Bool.not_eq_false]
      exact fun hinput => hruns (hkotlin.2 hinput)
    · intro compiler path hpath
      have hinput := (UsageRecords.get?_ofUnit_eq_some_iff.1 hpath).2
      rw [UsageRecords.get?_ofSteps_eq_none_iff]
      cases compiler with
      | java =>
        rw [runsOf_java_eq_nil_iff]
        exact (and_iff_right rfl).symm
      | kotlin =>
        rw [hkotlin, hinput rfl]
        exact iff_of_false Bool.noConfusion fun h => Compiler.noConfusion h.1

/-- A unit that tracks usage and leaves nothing to the Java compiler. -/
def kotlinUnit : SourceUnit :=
  { (SourceUnit.standard ⟨"lib", "a", ∅⟩ kaptWorkspace.roots).withSources [⟨"A.kt"⟩] with tracksUsage := true }

theorem kotlinUnit_records_follow_compilers :
    ∃ plan, Plan.make kaptWorkspace kotlinUnit {} Javac.planner = .ok plan ∧
      plan.records.get? .kotlin = some kotlinUnit.outputPaths.kotlinRecord ∧
      (∃ step ∈ plan.steps.steps, step.compiler? = some .kotlin) ∧
      plan.records.get? .java = none ∧ (∀ run, .javac run ∉ plan.steps.steps) ∧
      plan.records.registered kotlinUnit =
        carriedRecords .java plan.steps.steps ++ carriedRecords .kotlin plan.steps.steps := by
  obtain ⟨hcompilers, hjavac⟩ := records_follow_compilers kaptWorkspace kotlinUnit {}
  obtain ⟨plan, hplan, hrecords⟩ : ∃ plan, Plan.make kaptWorkspace kotlinUnit {} Javac.planner = .ok plan ∧
      decide (plan.records = ⟨none, some kotlinUnit.outputPaths.kotlinRecord⟩) = true :=
    exists_ok_of_any (by decide +kernel)
  have hrecords := of_decide_eq_true hrecords
  have hkotlin : plan.records.get? .kotlin = some kotlinUnit.outputPaths.kotlinRecord := by rw [hrecords]; rfl
  have hjava : plan.records.get? .java = none := by rw [hrecords]; rfl
  obtain ⟨hregistered, -, -, -, hlacks⟩ := hjavac plan hplan
  refine ⟨plan, hplan, hkotlin, ?_, hjava, ?_, hregistered⟩
  · exact ((hcompilers Javac.planner plan hplan .kotlin _).1 hkotlin).2
  · exact ((hlacks .java kotlinUnit.outputPaths.javaRecord rfl).1 hjava).2

end JarPlan
