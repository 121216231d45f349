import JarPlan.Proofs.Kapt.Settings
import JarPlan.Proofs.Plan.Order
import JarPlan.Proofs.Plan.PluginOptions
import JarPlan.Proofs.Target.Names
/-!
# Which options arrive whole

Options name generated directories, and the name of a target with two flavors has a comma in it. Unlike
the names of friends, those of directories are not rewritten before they are put among the options. So,
with no commas in what a plan is made from, the options arrive as they were given exactly when the target
has at most one flavor, or when no option names a directory.
-/

namespace JarPlan

/-- A template that has a place for the name and no comma of its own. -/
def Template.IsPlain (template : Template) : Prop :=
  ',' ∉ template.text.toList ∧ 2 ≤ (Text.splitAll ['%', 's'] template.text.toList).length

instance (template : Template) : Decidable template.IsPlain := inferInstanceAs (Decidable (_ ∧ _))

namespace Kotlinc

/-! ### Where commas come from -/

/-- Nothing that goes into the options of plugins holds a comma; of the flavors none does by itself. -/
structure CommaFree (ws : Workspace) (unit : SourceUnit) (toolchain : Toolchain) : Prop where
  root : ',' ∉ ws.root.spelling.toList
  annotation : ',' ∉ ws.roots.annotation.spelling.toList
  basePath : ',' ∉ unit.target.basePath.toList
  name : ',' ∉ unit.target.name.toList
  flavors : ∀ f ∈ unit.target.flavors, ',' ∉ f.toList
  processingJar : ∀ jar ∈ toolchain.processingJar, ',' ∉ jar.spelling.toList
  standardLibrary : ∀ jar ∈ toolchain.standardLibrary, ',' ∉ jar.spelling.toList
  processorJars : ∀ jar ∈ toolchain.javacOptions.processing.classpath, ',' ∉ jar.spelling.toList
  processors : ∀ name ∈ toolchain.javacOptions.processing.processors, ',' ∉ name.toList
  options : ∀ plugin ∈ toolchain.compilerPlugins.entries, ∀ e ∈ plugin.2.entries,
    ',' ∉ e.1.toList ∧ ',' ∉ e.2.toList

section Commas
variable {ws : Workspace} {unit : SourceUnit} {toolchain : Toolchain} {mode : CompileMode}
  {settings : Option Kapt.Settings}

/-- There is a comma in a generated directory exactly when there are two flavors to put one between. -/
theorem CommaFree.comma_mem_place_iff (hfree : CommaFree ws unit toolchain) {template : Template}
    (htemplate : template.IsPlain) :
    ',' ∈ (ws.root.join (ws.roots.annotationPath unit.target template)).spelling.toList ↔
      2 ≤ unit.target.flavors.toList.length := by
  rw [← Target.comma_mem_flavoredName_iff hfree.name hfree.flavors]
  constructor
  · intro h
    rcases Path.mem_join h with h | h | h
    · exact absurd h hfree.root
    · rcases Path.mem_join h with h | h | h
      · rcases Path.mem_join h with h | h | h
        · exact absurd h hfree.annotation
        · exact absurd (Target.mem_base h) hfree.basePath
        · exact absurd h (by decide)
      · rcases Target.mem_segment h with h | h
        · exact h
        · exact absurd h htemplate.1
      · exact absurd h (by decide)
    · exact absurd h (by decide)
  · intro h
    apply Path.mem_join_of_mem_right
    apply Path.mem_join_of_mem_right
    exact Target.mem_segment_of_mem htemplate.2 h

theorem comma_mem_option_iff {generated : Path} {e : String × String}
    (he : ',' ∉ e.1.toList ∧ ',' ∉ e.2.toList) :
    ',' ∈ (pluginOption generated e).toList ↔
      e.2 = codegenPlaceholder ∧ ',' ∈ generated.spelling.toList := by
  have hequals : ',' ∉ "=".toList := by decide
  rw [pluginOption, String.toList_append, String.toList_append, List.mem_append, List.mem_append,
    or_iff_right (not_or_intro he.1 hequals)]
  split
  · rename_i hplaceholder
    exact ⟨fun h => ⟨hplaceholder, h⟩, fun h => h.2⟩
  · rename_i hplaceholder
    exact ⟨fun h => absurd h he.2, fun h => absurd h.1 hplaceholder⟩

theorem CommaFree.given_iff (hfree : CommaFree ws unit toolchain) (generated : Path) :
    (∀ options ∈ givenOptions generated toolchain.compilerPlugins, ∀ o ∈ options, ',' ∉ o.toList) ↔
      ',' ∉ generated.spelling.toList ∨
        ∀ plugin ∈ toolchain.compilerPlugins.entries, ∀ e ∈ plugin.2.entries,
          e.2 ≠ codegenPlaceholder := by
  constructor
  · intro h
    by_cases hgenerated : ',' ∈ generated.spelling.toList
    · right
      intro plugin hplugin e he hplaceholder
      have hnonempty : (!plugin.2.isEmpty) = true := by
        simp [SortedMap.isEmpty, List.ne_nil_of_mem he]
      have hoptions : plugin.2.entries.map (pluginOption generated) ∈
          givenOptions generated toolchain.compilerPlugins :=
        List.mem_map_of_mem (List.mem_filter.2 ⟨hplugin, hnonempty⟩)
      have hcomma := (comma_mem_option_iff (hfree.options plugin hplugin e he)).2 ⟨hplaceholder, hgenerated⟩
      exact h _ hoptions _ (List.mem_map_of_mem he) hcomma
    · exact .inl hgenerated
  · intro h options hoptions o ho
    obtain ⟨plugin, hplugin, rfl⟩ := List.mem_map.1 hoptions
    obtain ⟨e, he, rfl⟩ := List.mem_map.1 ho
    have hmem := (List.mem_filter.1 hplugin).1
    rw [comma_mem_option_iff (hfree.options plugin hmem e he)]
    rintro ⟨hplaceholder, hcomma⟩
    rcases h with h | h
    · exact h hcomma
    · exact h plugin hmem e he hplaceholder

theorem CommaFree.comma_not_mem_value (hfree : CommaFree ws unit toolchain) {s : Kapt.Settings}
    (h : Kapt.Settings.assemble ws.root unit.target (.standard ws.roots unit.target)
      toolchain.javacOptions.processing toolchain = .ok s)
    (hflavors : ¬ 2 ≤ unit.target.flavors.toList.length) {value : String}
    (hvalue : IsOptionValue ws.root s value) : ',' ∉ value.toList := by
  obtain ⟨hdirs, hprocessors, hclasspath⟩ := Kapt.Settings.assemble_eq_ok h
  cases hvalue with
  | jar hjar =>
    obtain ⟨entry, rfl, hentry⟩ := hclasspath _ hjar
    have hfreeEntry : ',' ∉ entry.spelling.toList := by
      rcases hentry with hentry | hentry | hentry
      · exact hfree.processingJar entry hentry
      · exact hfree.standardLibrary entry hentry
      · exact hfree.processorJars entry hentry
    intro hcomma
    rcases Path.mem_absolutize hcomma with hcomma | hcomma | hcomma | hcomma
    · exact hfree.root hcomma
    · exact hfreeEntry hcomma
    · exact absurd hcomma (by decide)
    · exact absurd hcomma (by decide)
  | processor hname =>
    rw [hprocessors] at hname
    exact hfree.processors value hname
  | place hdir =>
    have hplace {template : Template} (htemplate : template.IsPlain) :
        ',' ∉ (ws.root.join (ws.roots.annotationPath unit.target template)).spelling.toList :=
      fun hcomma => hflavors ((hfree.comma_mem_place_iff htemplate).1 hcomma)
    rw [hdirs] at hdir
    simp only [Kapt.Directories.timings, Kapt.Directories.standard, List.mem_cons, List.not_mem_nil,
      or_false] at hdir
    rcases hdir with hdir | hdir | hdir | hdir
    · rw [hdir]
      exact hplace (by decide)
    · rw [hdir]
      exact hplace (by decide)
    · rw [hdir]
      exact hplace (by decide)
    · rw [hdir]
      have hreports : ',' ∉ (ws.root.join (ws.roots.annotationPath unit.target .reports)).spelling.toList :=
        hplace (by decide)
      intro hcomma
      rcases Path.mem_join hcomma with hcomma | hcomma | hcomma
      · exact hfree.root hcomma
      · rcases Path.mem_join hcomma with hcomma | hcomma | hcomma
        · exact hreports (Path.mem_join_of_mem_right _ hcomma)
        · exact absurd hcomma (by decide)
        · exact absurd hcomma (by decide)
      · exact absurd hcomma (by decide)
  | plain hvalue => exact hvalue

theorem CommaFree.processing_iff (hfree : CommaFree ws unit toolchain)
    (hsettings : Draft.settings ws unit toolchain mode = .ok settings) {processing : List (List String)}
    (hprocessing : processingOptions ws.root settings = .ok processing) :
    (∀ options ∈ processing, ∀ o ∈ options, ',' ∉ o.toList) ↔
      ¬ 2 ≤ unit.target.flavors.toList.length ∨ mode ≠ .kotlinWithKapt := by
  rcases Draft.settings_eq_ok hsettings with ⟨hmode, rfl⟩ | ⟨rfl, s, rfl, hassemble⟩
  · obtain rfl := Except.ok.inj hprocessing
    exact ⟨fun _ => .inr hmode, fun _ options hoptions => nomatch hoptions⟩
  · rcases processingOptions_eq_ok hprocessing with ⟨hnone, -⟩ | ⟨s', options, hs, hoptions, rfl⟩
    · cases hnone
    obtain rfl := Option.some.inj hs
    constructor
    · intro h
      left
      intro hflavors
      -- any option with a directory would do; that of the stubs is always there
      have hstubs := stubs_mem_pluginOptions hoptions
      rw [(Kapt.Settings.assemble_eq_ok hassemble).1] at hstubs
      simp only [Kapt.Directories.standard] at hstubs
      have hplain : Template.stubs.IsPlain := by decide
      have hcomma := (hfree.comma_mem_place_iff hplain).2 hflavors
      exact h options (List.mem_singleton_self options) _ hstubs
        ((comma_mem_pluginOption_iff (by decide) _).2 hcomma)
    · rintro (hflavors | hmode) options' hmem o ho
      · obtain rfl := List.mem_singleton.1 hmem
        obtain ⟨name, value, rfl, hname, hvalue⟩ := mem_pluginOptions hoptions ho
        rw [comma_mem_pluginOption_iff hname]
        exact hfree.comma_not_mem_value hassemble hflavors hvalue
      · exact absurd rfl hmode

theorem CommaFree.all_iff (hfree : CommaFree ws unit toolchain)
    (hsettings : Draft.settings ws unit toolchain mode = .ok settings) {processing : List (List String)}
    (hprocessing : processingOptions ws.root settings = .ok processing) :
    (∀ options ∈ givenOptions (ws.root.join (ws.roots.annotationPath unit.target .pluginGenerated))
        toolchain.compilerPlugins ++ processing, ∀ o ∈ options, ',' ∉ o.toList) ↔
      unit.target.flavors.toList.length ≤ 1 ∨ mode ≠ .kotlinWithKapt ∧
        ∀ plugin ∈ toolchain.compilerPlugins.entries, ∀ e ∈ plugin.2.entries, e.2 ≠ codegenPlaceholder := by
  have hplain : Template.pluginGenerated.IsPlain := by decide
  have hflavors : ¬ 2 ≤ unit.target.flavors.toList.length ↔ unit.target.flavors.toList.length ≤ 1 := by
    omega
  rw [List.forall_mem_append, hfree.given_iff, hfree.processing_iff hsettings hprocessing,
    hfree.comma_mem_place_iff hplain, hflavors, ← or_and_left, and_comm]

theorem shape_of_mem_processingOptions {root : Path} {processing : List (List String)}
    (h : processingOptions root settings = .ok processing) :
    ∀ options ∈ processing,
      options.head? = some "plugin:org.jetbrains.kotlin.kapt3:aptMode=compile" ∧
        ∀ o ∈ options, ∃ rest, o = Kapt.Settings.optionLead ++ rest := by
  rcases processingOptions_eq_ok h with ⟨-, rfl⟩ | ⟨s, options, -, hoptions, rfl⟩
  · simp
  · intro options' hmem
    obtain rfl := List.mem_singleton.1 hmem
    exact pluginOptions_shape hoptions

end Commas

/-- The options of plugins stand before the name of the module in the one run of the compiler, and the
compiler cuts them into what they were made of exactly when the target has at most one flavor or no
directory is among them. -/
theorem options_arrive_iff {ws : Workspace} {unit : SourceUnit} {toolchain : Toolchain}
    {planner : JavaPlanner} {plan : Plan} (hfree : CommaFree ws unit toolchain)
    (hplan : Plan.make ws unit toolchain planner = .ok plan) (hmode : plan.mode.runsKotlinc = true) :
    ∃ draft javaSteps run settings processing front,
      Draft.make ws unit toolchain = .ok draft ∧ plan.steps.steps = draft.steps ++ javaSteps ∧
      .kotlinc run ∈ draft.steps ∧ (∀ other, .kotlinc other ∈ draft.steps → other = run) ∧
      Draft.settings ws unit toolchain plan.mode = .ok settings ∧
      processingOptions ws.root settings = .ok processing ∧
      run.arguments = front ++ ["-module-name", unit.target.moduleName, "-no-stdlib", "-no-reflect"]
        ++ Javac.flag "-jvm-target" toolchain.jvmTarget ++ toolchain.extraKotlincArguments ∧
      (∀ options ∈ processing,
        options.head? = some "plugin:org.jetbrains.kotlin.kapt3:aptMode=compile" ∧
          ∀ o ∈ options, ∃ rest, o = Kapt.Settings.optionLead ++ rest) ∧
      (receivedOptions front =
          givenOptions (ws.root.join (ws.roots.annotationPath unit.target .pluginGenerated))
            toolchain.compilerPlugins ++ processing ↔
        unit.target.flavors.toList.length ≤ 1 ∨ plan.mode ≠ .kotlinWithKapt ∧
          ∀ plugin ∈ toolchain.compilerPlugins.entries, ∀ e ∈ plugin.2.entries,
            e.2 ≠ codegenPlaceholder) := by
  obtain ⟨draft, javaSteps, hdraft, -, rfl⟩ := Plan.make_eq_ok.1 hplan
  rcases Draft.make_eq_ok hdraft with ⟨hjava, -⟩ | ⟨settings, run, hsettings, hrun, hsteps⟩
  · have hnone : draft.mode.runsKotlinc = true := hmode
    rw [hjava] at hnone
    cases hnone
  obtain ⟨dir, hstaging⟩ := Draft.isStaging_friends ws unit toolchain
  obtain ⟨processing, front, hprocessing, harguments, hreceived⟩ := receivedOptions_run hrun
  have hshape := shape_of_mem_processingOptions hprocessing
  refine ⟨draft, javaSteps, run, settings, processing, front, hdraft, rfl, ?_, ?_, hsettings, hprocessing,
    harguments, hshape, ?_⟩
  · rw [hsteps]
    exact Draft.kotlinc_mem
  · intro other hother
    rw [hsteps] at hother
    exact Draft.eq_of_kotlinc_mem hstaging hother
  · rw [hreceived, received_eq_given_iff, hfree.all_iff hsettings hprocessing]
    · rfl
    · intro options hoptions
      rcases List.mem_append.1 hoptions with hoptions | hoptions
      · exact ne_nil_of_mem_givenOptions hoptions
      · have hhead := (hshape options hoptions).1
        rintro rfl
        cases hhead

def flavoredUnit (flavors : List String) : SourceUnit :=
  { kaptUnit with target := { kaptUnit.target with flavors := .ofList flavors } }

theorem commaFree_flavoredUnit {flavors : List String}
    (hflavors : ∀ f ∈ (SortedSet.ofList flavors).toList, ',' ∉ f.toList) :
    CommaFree kaptWorkspace (flavoredUnit flavors) kaptToolchain where
  root := by decide
  annotation := by decide
  basePath := by
    show ',' ∉ "lib".toList
    decide
  name := by
    show ',' ∉ "a".toList
    decide
  flavors := hflavors
  processingJar := by decide
  standardLibrary := by decide
  processorJars := by decide
  processors := by decide
  options := by decide

theorem options_arrive_with_one_flavor_not_two :
    (∃ plan run settings processing front,
      Plan.make kaptWorkspace (flavoredUnit ["abi"]) kaptToolchain Javac.planner = .ok plan ∧
        .kotlinc run ∈ plan.steps.steps ∧ front <+: run.arguments ∧
        processingOptions kaptWorkspace.root settings = .ok processing ∧
        receivedOptions front = processing) ∧
    ∃ plan run settings processing front,
      Plan.make kaptWorkspace (flavoredUnit ["abi", "src"]) kaptToolchain Javac.planner = .ok plan ∧
        .kotlinc run ∈ plan.steps.steps ∧ front <+: run.arguments ∧
        processingOptions kaptWorkspace.root settings = .ok processing ∧
        receivedOptions front ≠ processing := by
  obtain ⟨-, one, -, hone, honeMode⟩ := exists_plan_of_run kaptWorkspace (flavoredUnit ["abi"]) kaptToolchain
    (by decide +kernel) (by decide +kernel)
  obtain ⟨-, two, -, htwo, htwoMode⟩ := exists_plan_of_run kaptWorkspace (flavoredUnit ["abi", "src"])
    kaptToolchain (by decide +kernel) (by decide +kernel)
  constructor
  · obtain ⟨draft, javaSteps, run, settings, processing, front, -, hsteps, hrun, -, -, hprocessing,
      harguments, -, harrive⟩ := options_arrive_iff (commaFree_flavoredUnit (by decide +kernel)) hone
        (by rw [honeMode]; rfl)
    refine ⟨one, run, settings, processing, front, hone, ?_, ?_, hprocessing, ?_⟩
    · rw [hsteps]
      exact List.mem_append_left _ hrun
    · rw [harguments, List.append_assoc, List.append_assoc]
      exact List.prefix_append _ _
    · exact harrive.2 (.inl (by decide +kernel))
  · obtain ⟨draft, javaSteps, run, settings, processing, front, -, hsteps, hrun, -, -, hprocessing,
      harguments, -, harrive⟩ := options_arrive_iff (commaFree_flavoredUnit (by decide +kernel)) htwo
        (by rw [htwoMode]; rfl)
    refine ⟨two, run, settings, processing, front, htwo, ?_, ?_, hprocessing, ?_⟩
    · rw [hsteps]
      exact List.mem_append_left _ hrun
    · rw [harguments, List.append_assoc, List.append_assoc]
      exact List.prefix_append _ _
    · intro hreceived
      rcases harrive.1 hreceived with hflavors | ⟨hmode, -⟩
      · exact absurd hflavors (by decide +kernel)
      · exact hmode htwoMode

end Kotlinc

end JarPlan
