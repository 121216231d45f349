import JarPlan.Proofs.Path.Matching
import JarPlan.Proofs.Plan.UnreadSettings
import JarPlan.Proofs.Step.Spelling
/-!
# Plans of units that match

Units match when they have one target and one flag and their paths match, whatever the spellings that their sets
kept and the order in which these were filled. All that planning does with a path of a unit it does to its
components: it reads a file name, normalizes, compares, sorts, or puts the path into a step. What becomes text is
normalized before, or belongs to the target. So units that match get the same error, or plans in one mode with
steps that match one by one.
-/

namespace JarPlan

/-! ### Outcomes -/

/-- Results that are related, or one error. -/
inductive SameOutcome {ε α β : Type} (R : α → β → Prop) : Except ε α → Except ε β → Prop where
  | ok {a : α} {b : β} (h : R a b) : SameOutcome R (.ok a) (.ok b)
  | error (e : ε) : SameOutcome R (.error e) (.error e)

namespace SameOutcome

variable {ε α β γ δ : Type} {R : α → β → Prop} {S : γ → δ → Prop} {x : Except ε α} {y : Except ε β}

theorem refl (x : Except ε α) : SameOutcome Eq x x := by
  cases x with
  | ok a => exact .ok rfl
  | error e => exact .error e

theorem exists_ok {a : α} (h : SameOutcome R (.ok a) y) : ∃ b, y = .ok b ∧ R a b := by
  cases h with
  | ok h => exact ⟨_, rfl, h⟩

theorem bind {f : α → Except ε γ} {g : β → Except ε δ} (h : SameOutcome R x y)
    (hf : ∀ a b, R a b → SameOutcome S (f a) (g b)) : SameOutcome S (x >>= f) (y >>= g) := by
  cases h with
  | ok h => exact hf _ _ h
  | error e => exact .error e

theorem map {f : α → γ} {g : β → δ} (h : SameOutcome R x y) (hf : ∀ a b, R a b → S (f a) (g b)) :
    SameOutcome S (x.map f) (y.map g) := by
  cases h with
  | ok h => exact .ok (hf _ _ h)
  | error e => exact .error e

end SameOutcome

/-! ### Steps -/

instance : ReflBEq (SortedSet Path) where
  rfl {s} := beq_self_eq_true s.toList

instance : ReflBEq OutputPaths where
  rfl {o} := beq_self_eq_true (o.classesDir, o.outputJarDir, o.sourcesList, o.workingDirectory)

instance : ReflBEq KotlincRun where
  rfl {r} := beq_self_eq_true (r.target, r.command, r.outputDir, r.sources, r.sourcesList, r.classpath, r.arguments,
    r.verboseFlags, r.outputPaths, r.record, r.generatedDirs)

instance : ReflBEq JavacRun where
  rfl {r} := beq_self_eq_true (r.target, r.outputDir, r.sources, r.sourcesList, r.classpath, r.arguments, r.record)

instance : ReflBEq Step where
  rfl {s} := by
    cases s with
    | makeCleanDir path => exact beq_self_eq_true path
    | mkdir path => exact beq_self_eq_true path
    | copy source destination mode => exact beq_self_eq_true (source, destination, mode)
    | zip root output sourceDir ignored => exact beq_self_eq_true (root, output, sourceDir, ignored)
    | kotlinc run => exact beq_self_eq_true run
    | forwardTimings report target => exact beq_self_eq_true (report, target)
    | javac run => exact beq_self_eq_true run

/-- Steps that match one by one. -/
def StepsMatch (steps steps' : List Step) : Prop := List.Forall₂ (fun s t => (s == t) = true) steps steps'

theorem StepsMatch.refl (steps : List Step) : StepsMatch steps steps := beq_iff_forall₂.1 (beq_self_eq_true steps)

/-! ### Parts that match -/

theorem OutputPaths.beq_iff {o o' : OutputPaths} : (o == o') = true ↔
    (o.classesDir == o'.classesDir) = true ∧ (o.outputJarDir == o'.outputJarDir) = true ∧
      (o.sourcesList == o'.sourcesList) = true ∧ (o.workingDirectory == o'.workingDirectory) = true := by
  have hparts : (o == o') = (o.classesDir == o'.classesDir && (o.outputJarDir == o'.outputJarDir &&
    (o.sourcesList == o'.sourcesList && o.workingDirectory == o'.workingDirectory))) := rfl
  rw [hparts]
  simp only [Bool.and_eq_true]

theorem SourceUnit.beq_iff {u v : SourceUnit} : (u == v) = true ↔
    u.target = v.target ∧ (u.sources == v.sources) = true ∧ (u.outputPaths == v.outputPaths) = true ∧
      (u.classpath == v.classpath) = true ∧ u.tracksUsage = v.tracksUsage := by
  have hparts : (u == v) = (u.target == v.target && (u.sources == v.sources && (u.outputPaths == v.outputPaths &&
    (u.classpath == v.classpath && u.tracksUsage == v.tracksUsage)))) := rfl
  rw [hparts]
  simp only [Bool.and_eq_true, beq_iff_eq (α := Target), beq_iff_eq (α := Bool)]

theorem JavaInput.beq_iff {i i' : JavaInput} : (i == i') = true ↔
    (i.sources == i'.sources) = true ∧ (i.classpath == i'.classpath) = true ∧
      (i.outputPaths == i'.outputPaths) = true ∧ i.tracksUsage = i'.tracksUsage := by
  have hparts : (i == i') = (i.sources == i'.sources && (i.classpath == i'.classpath &&
    (i.outputPaths == i'.outputPaths && i.tracksUsage == i'.tracksUsage))) := rfl
  rw [hparts]
  simp only [Bool.and_eq_true, beq_iff_eq (α := Bool)]

/-- A path that is there or not, as the flag says. -/
theorem ite_some_beq {p q : Path} (h : (p == q) = true) (b : Bool) :
    ((if b then some p else none) == if b then some q else none) = true := by
  cases b with
  | false => rfl
  | true => exact h

namespace Path

theorem entry_beq_entry {p q : Path} (h : (p == q) = true) {name : String}
    (hname : components ⟨name⟩ = [.name name]) : (p.entry name == q.entry name) = true := by
  rw [beq_iff, components_entry p hname, components_entry q hname, beq_iff.1 h]

/-- Whether the Kotlin compiler reads a source is told by its file name. -/
theorem isKotlinInput_congr {p q : Path} (h : (p == q) = true) : p.isKotlinInput = q.isKotlinInput := by
  rw [isKotlinInput, isKotlinSource, isSourceArchive, extension?, fileName?_congr h]
  rfl

end Path

namespace OutputPaths

variable {o o' : OutputPaths} (h : (o == o') = true)
include h

theorem beq_javaRecord : (o.javaRecord == o'.javaRecord) = true :=
  Path.entry_beq_entry (beq_iff.1 h).2.1 (by decide +kernel)

theorem beq_kotlinRecord : (o.kotlinRecord == o'.kotlinRecord) = true :=
  Path.entry_beq_entry (beq_iff.1 h).2.1 (by decide +kernel)

end OutputPaths

theorem CompileMode.decide_congr {unit unit' : SourceUnit} (h : (unit.sources == unit'.sources) = true)
    (toolchain : Toolchain) : CompileMode.decide unit toolchain = CompileMode.decide unit' toolchain := by
  have hinput : unit.hasKotlinInput = unit'.hasKotlinInput :=
    any_eq_of_beq (l := unit.sources.toList) h fun _ _ => Path.isKotlinInput_congr
  rw [CompileMode.decide, CompileMode.decide, hinput]

/-! ### The Java pass -/

/-- The same arguments with sources, classpath and outputs that match. -/
theorem Javac.sameOutcome_planner (target : Target) (options : JavacOptions) {input input' : JavaInput}
    (h : (input == input') = true) :
    SameOutcome StepsMatch (planner target options input) (planner target options input') := by
  obtain ⟨hsources, hclasspath, houtputs, htracks⟩ := JavaInput.beq_iff.1 h
  rw [planner, planner, isEmpty_eq_of_beq hsources]
  split
  · exact .ok .nil
  · refine (SameOutcome.refl _).bind fun arguments _ hsame => ?_
    subst hsame
    refine .ok (.cons ?_ .nil)
    have hparts (r r' : JavacRun) : (Step.javac r == Step.javac r') =
        (r.target == r'.target && (r.outputDir == r'.outputDir && (r.sources == r'.sources &&
          (r.sourcesList == r'.sourcesList && (r.classpath == r'.classpath && (r.arguments == r'.arguments &&
            r.record == r'.record)))))) := rfl
    obtain ⟨hclasses, -, hlist, -⟩ := OutputPaths.beq_iff.1 houtputs
    rw [hparts]
    dsimp only
    rw [hclasses, hsources, hlist, hclasspath, htracks, ite_some_beq (OutputPaths.beq_javaRecord houtputs)]
    simp only [beq_self_eq_true, Bool.and_self]

/-! ### The run of the Kotlin compiler -/

/-- Entries that match are resolved to one path. -/
theorem Classpath.compose_eq_of_beq {declared declared' : SortedSet Path} (h : (declared == declared') = true)
    (root : Path) (extra : List Path) (runtime : SortedSet Path) (copies : SortedMap Path Path) :
    compose root extra declared runtime copies = compose root extra declared' runtime copies := by
  have hresolved : declared.toList.map (resolve root copies) = declared'.toList.map (resolve root copies) := by
    apply map_eq_of_beq h
    intro p q hmatch
    rw [resolve, Path.absolutize_congr root hmatch, resolve]
  rw [compose, compose, List.map_append, List.map_append, hresolved, ← List.map_append, ← List.map_append]

theorem Kotlinc.sameOutcome_run {unit unit' : SourceUnit} (h : (unit == unit') = true) (root : Path)
    (toolchain : Toolchain) (settings : Option Kapt.Settings) (friends : Friends.Staged) (generated : Path) :
    SameOutcome (fun r r' : KotlincRun => (r == r') = true) (run root unit toolchain settings friends generated)
      (run root unit' toolchain settings friends generated) := by
  obtain ⟨htarget, hsources, houtputs, hclasspath, htracks⟩ := SourceUnit.beq_iff.1 h
  have harguments : arguments root unit toolchain settings friends.paths generated =
      arguments root unit' toolchain settings friends.paths generated := by
    rw [arguments, arguments, htarget]
  have hparts (r r' : KotlincRun) : (r == r') =
      (r.target == r'.target && (r.command == r'.command && (r.outputDir == r'.outputDir &&
        (r.sources == r'.sources && (r.sourcesList == r'.sourcesList && (r.classpath == r'.classpath &&
          (r.arguments == r'.arguments && (r.verboseFlags == r'.verboseFlags && (r.outputPaths == r'.outputPaths &&
            (r.record == r'.record && r.generatedDirs == r'.generatedDirs)))))))))) := rfl
  obtain ⟨hclasses, -, hlist, -⟩ := OutputPaths.beq_iff.1 houtputs
  have hsourceList : (unit.sources.toList == unit'.sources.toList) = true := hsources
  rw [run, run, harguments]
  refine (SameOutcome.refl _).bind fun arguments _ hsame => ?_
  subst hsame
  refine .ok ?_
  rw [hparts]
  dsimp only
  rw [Classpath.compose_eq_of_beq hclasspath, htarget, hclasses, hsourceList, hlist, houtputs, htracks,
    ite_some_beq (OutputPaths.beq_kotlinRecord houtputs)]
  simp only [beq_self_eq_true, Bool.and_self]

/-! ### Drafts -/

namespace Draft

/-- One mode and one request up to the spelling of its paths, and steps that match. -/
structure Matches (d d' : Draft) : Prop where
  mode : d.mode = d'.mode
  steps : StepsMatch d.steps d'.steps
  target : d.request.target = d'.request.target
  options : d.request.options = d'.request.options
  input : (d.request.input == d'.request.input) = true

section Units
variable {unit unit' : SourceUnit} (h : (unit == unit') = true)
include h

theorem friends_eq (ws : Workspace) (toolchain : Toolchain) :
    friends ws unit toolchain = friends ws unit' toolchain := by
  rw [friends, friends, (SourceUnit.beq_iff.1 h).1]

theorem settings_eq (ws : Workspace) (toolchain : Toolchain) (mode : CompileMode) :
    settings ws unit toolchain mode = settings ws unit' toolchain mode := by
  cases mode with
  | kotlinWithKapt => rw [settings, settings, (SourceUnit.beq_iff.1 h).1]
  | kotlinWithoutKapt => rfl
  | javaOnly => rfl

theorem restSources_beq (settings : Option Kapt.Settings) :
    (restSources unit settings == restSources unit' settings) = true := by
  obtain ⟨-, hsources, -⟩ := SourceUnit.beq_iff.1 h
  have hrest : (SortedSet.collect (unit.sources.toList.filter (!·.isKotlinInput)) ==
      SortedSet.collect (unit'.sources.toList.filter (!·.isKotlinInput))) = true := by
    refine SortedSet.collect_beq_collect (Path.sameUpToMatch_of_beq (filter_beq_filter hsources fun p q hmatch => ?_))
    rw [Path.isKotlinInput_congr hmatch]
  cases settings with
  | none => exact hrest
  | some settings => exact SortedSet.insert_beq_insert hrest _

/-- The entries of the Java pass are normalized, so they are spelled alike. -/
theorem restClasspath_eq (root : Path) (toolchain : Toolchain) :
    restClasspath root unit toolchain = restClasspath root unit' toolchain := by
  obtain ⟨-, -, houtputs, hclasspath, -⟩ := SourceUnit.beq_iff.1 h
  have hentries := map_eq_of_beq (f := Path.normalize) hclasspath fun _ _ => Path.normalize_congr
  have hclasses (p : Path) : (p == unit.outputPaths.classesDir) = (p == unit'.outputPaths.classesDir) := by
    rw [Bool.eq_iff_iff, Path.beq_iff, Path.beq_iff, Path.beq_iff.1 (OutputPaths.beq_iff.1 houtputs).1]
  rw [restClasspath, restClasspath, hentries]
  simp only [bne, hclasses]

theorem restInput_beq (root : Path) (toolchain : Toolchain) (settings : Option Kapt.Settings) :
    (restInput root unit toolchain settings == restInput root unit' toolchain settings) = true := by
  obtain ⟨-, -, houtputs, -, htracks⟩ := SourceUnit.beq_iff.1 h
  refine JavaInput.beq_iff.2 ⟨restSources_beq h settings, ?_, houtputs, htracks⟩
  rw [restInput, restInput, restClasspath_eq h]
  exact beq_iff_forall₂.2 (.cons (OutputPaths.beq_iff.1 houtputs).1 (beq_iff_forall₂.1 (beq_self_eq_true _)))

theorem wholeInput_beq : (wholeInput unit == wholeInput unit') = true := by
  obtain ⟨-, hsources, houtputs, hclasspath, htracks⟩ := SourceUnit.beq_iff.1 h
  exact JavaInput.beq_iff.2 ⟨hsources, hclasspath, houtputs, htracks⟩

theorem matches_around (ws : Workspace) (toolchain : Toolchain) (settings : Option Kapt.Settings)
    {run run' : KotlincRun} (hrun : (run == run') = true) :
    (around ws unit toolchain settings run).Matches (around ws unit' toolchain settings run') := by
  obtain ⟨htarget, hsources, houtputs, -⟩ := SourceUnit.beq_iff.1 h
  have hmode := CompileMode.decide_congr hsources toolchain
  refine ⟨hmode, ?_, htarget, ?_, restInput_beq h ws.root toolchain settings⟩
  · rw [around, around, friends_eq h, htarget]
    refine List.rel_append (List.rel_append (StepsMatch.refl _) (.cons hrun .nil)) ?_
    cases settings with
    | none => exact .nil
    | some s =>
      -- the last step fills the classes directory of the unit
      have hcopy : (Step.copy s.dirs.classes unit.outputPaths.classesDir .contents ==
          Step.copy s.dirs.classes unit'.outputPaths.classesDir .contents) = true :=
        Bool.and_eq_true_iff.2 ⟨beq_self_eq_true _, Bool.and_eq_true_iff.2
          ⟨(OutputPaths.beq_iff.1 houtputs).1, beq_self_eq_true _⟩⟩
      rw [htarget]
      exact List.rel_append (StepsMatch.refl _) (.cons (beq_self_eq_true _) (.cons hcopy .nil))
  · rw [around, around, hmode]

theorem sameOutcome_make (ws : Workspace) (toolchain : Toolchain) :
    SameOutcome Matches (make ws unit toolchain) (make ws unit' toolchain) := by
  obtain ⟨htarget, hsources, -⟩ := SourceUnit.beq_iff.1 h
  have hmode := CompileMode.decide_congr hsources toolchain
  by_cases hruns : (CompileMode.decide unit toolchain).runsKotlinc = true
  · rw [make_of_runsKotlinc ws hruns, make_of_runsKotlinc ws (hmode ▸ hruns), hmode, settings_eq h, friends_eq h,
      htarget]
    refine (SameOutcome.refl _).bind fun settings _ hsame => ?_
    subst hsame
    exact (Kotlinc.sameOutcome_run h ..).map fun run run' hrun => matches_around h ws toolchain settings hrun
  · rw [make, make, ← hmode, if_neg hruns, if_neg hruns]
    exact .ok ⟨rfl, .nil, htarget, rfl, wholeInput_beq h⟩

end Units

end Draft

/-! ### Plans -/

theorem Step.compiler?_congr {s t : Step} (h : (s == t) = true) : s.compiler? = t.compiler? := by
  cases s <;> cases t <;> first | rfl | cases h

/-- Plans in one mode with steps that match one by one and records that match. -/
structure Plan.Matches (p q : Plan) : Prop where
  mode : p.mode = q.mode
  steps : StepsMatch p.steps.steps q.steps.steps
  records : (p.records == q.records) = true

theorem UsageRecords.ofSteps_beq {unit unit' : SourceUnit} (houtputs : (unit.outputPaths == unit'.outputPaths) = true)
    {steps steps' : List Step} (hsteps : StepsMatch steps steps') :
    (ofSteps unit steps == ofSteps unit' steps') = true := by
  have hcompiler (compiler : Compiler) :
      steps.any (·.compiler? = some compiler) = steps'.any (·.compiler? = some compiler) :=
    any_eq_of_beq (beq_iff_forall₂.2 hsteps) fun _ _ hmatch => by rw [Step.compiler?_congr hmatch]
  rw [ofSteps, ofSteps, hcompiler, hcompiler]
  exact Bool.and_eq_true_iff.2 ⟨ite_some_beq (OutputPaths.beq_javaRecord houtputs) _,
    ite_some_beq (OutputPaths.beq_kotlinRecord houtputs) _⟩

theorem Draft.Matches.complete {d d' : Draft} (h : d.Matches d') {unit unit' : SourceUnit}
    (houtputs : (unit.outputPaths == unit'.outputPaths) = true) {javaSteps javaSteps' : List Step}
    (hjava : StepsMatch javaSteps javaSteps') :
    (d.complete unit javaSteps).Matches (d'.complete unit' javaSteps') := by
  have hsteps := List.rel_append h.steps hjava
  exact ⟨h.mode, hsteps, UsageRecords.ofSteps_beq houtputs hsteps⟩

theorem SourceUnit.withSources_withClasspath_beq {unit unit' : SourceUnit} (h : (unit == unit') = true)
    {sources sources' classpath classpath' : List Path} (hsources : Path.SameUpToMatch sources sources')
    (hclasspath : Path.SameUpToMatch classpath classpath') :
    ((unit.withSources sources).withClasspath classpath == (unit'.withSources sources').withClasspath classpath') =
      true := by
  obtain ⟨htarget, hold, houtputs, holdClasspath, htracks⟩ := beq_iff.1 h
  exact beq_iff.2 ⟨htarget, SortedSet.insertAll_beq_insertAll hold hsources, houtputs,
    SortedSet.insertAll_beq_insertAll holdClasspath hclasspath, htracks⟩

/-- Units that match have plans that match, or the same error. Units match in particular when paths that match were
added to them, in any order and any number of times. -/
theorem matching_units_have_matching_plans (ws : Workspace) (toolchain : Toolchain) :
    (∀ unit unit' : SourceUnit, (unit == unit') = true →
      SameOutcome Plan.Matches (Plan.make ws unit toolchain Javac.planner)
        (Plan.make ws unit' toolchain Javac.planner)) ∧
    ∀ (unit unit' : SourceUnit) (sources sources' classpath classpath' : List Path), (unit == unit') = true →
      Path.SameUpToMatch sources sources' → Path.SameUpToMatch classpath classpath' →
      ((unit.withSources sources).withClasspath classpath ==
        (unit'.withSources sources').withClasspath classpath') = true := by
  refine ⟨fun unit unit' h => ?_, fun unit unit' sources sources' classpath classpath' h hsources hclasspath =>
    SourceUnit.withSources_withClasspath_beq h hsources hclasspath⟩
  rw [Plan.make_eq, Plan.make_eq]
  refine (Draft.sameOutcome_make h ws toolchain).bind fun draft draft' hdraft => ?_
  rw [hdraft.target, hdraft.options]
  refine (Javac.sameOutcome_planner _ _ hdraft.input).bind fun javaSteps javaSteps' hjava => ?_
  exact .ok (hdraft.complete (SourceUnit.beq_iff.1 h).2.2.1 hjava)

/-- The unit with its sources in other spellings and in another order, and with slashes to spare in its outputs. -/
def respelledUnit : SourceUnit :=
  (SourceUnit.standard ⟨"lib", "a", ∅⟩ (.below ⟨"out//"⟩)).withSources [⟨"B.java/."⟩, ⟨"A.kt/"⟩, ⟨"B.java"⟩]

theorem respelledUnit_has_matching_plan :
    kaptUnit ≠ respelledUnit ∧ (kaptUnit == respelledUnit) = true ∧
    ∃ plan plan', Plan.make kaptWorkspace kaptUnit kaptToolchain Javac.planner = .ok plan ∧
      Plan.make kaptWorkspace respelledUnit kaptToolchain Javac.planner = .ok plan' ∧ plan.Matches plan' := by
  obtain ⟨houtcome, hunits⟩ := matching_units_have_matching_plans kaptWorkspace kaptToolchain
  have hsources : Path.SameUpToMatch [⟨"A.kt"⟩, ⟨"B.java"⟩] [⟨"B.java/."⟩, ⟨"A.kt/"⟩, ⟨"B.java"⟩] := by
    intro p
    have hkotlin : Path.components ⟨"A.kt/"⟩ = Path.components ⟨"A.kt"⟩ := by decide +kernel
    have hjava : Path.components ⟨"B.java/."⟩ = Path.components ⟨"B.java"⟩ := by decide +kernel
    simp only [List.exists_mem_cons_iff, Path.beq_iff, hkotlin, hjava]
    tauto
  have hmatch : (kaptUnit == respelledUnit) = true := by
    have hnone (unit : SourceUnit) : unit.withClasspath [] = unit := rfl
    have hadded := hunits (.standard ⟨"lib", "a", ∅⟩ kaptWorkspace.roots)
      (.standard ⟨"lib", "a", ∅⟩ (.below ⟨"out//"⟩)) _ _ [] [] (by decide +kernel) hsources fun _ => Iff.rfl
    rw [hnone, hnone] at hadded
    rw [kaptUnit, respelledUnit]
    exact hadded
  obtain ⟨-, plan, -, hplan, -⟩ := exists_kaptPlan
  have hsame := houtcome kaptUnit respelledUnit hmatch
  rw [hplan] at hsame
  obtain ⟨plan', hplan', hplans⟩ := hsame.exists_ok
  exact ⟨by decide +kernel, hmatch, plan, plan', hplan, hplan', hplans⟩

end JarPlan
