import JarPlan.Plan.Basic
import JarPlan.Proofs.Bytes.Base64
import JarPlan.Proofs.Text.Pieces
/-!
# What compiler plugins receive

The options of a plugin travel to the compiler as one argument, joined with commas, and the compiler cuts
the argument at its commas again. So the plugins receive the options they were given exactly where none
of the options holds a comma.
-/

namespace JarPlan

namespace Kotlinc

/-! ### Cutting at commas -/

/-- What the compiler makes of the argument that follows `-P`. -/
def cutOptions (argument : String) : List String := (argument.toList.splitOn ',').map String.ofList

/-- The options that the compiler takes from its arguments, one list for each `-P`. -/
def receivedOptions : List String → List (List String)
  | flag :: argument :: rest =>
    if flag = "-P" then cutOptions argument :: receivedOptions rest else receivedOptions (argument :: rest)
  | _ => []

theorem cutOptions_intercalate_iff {options : List String} (h : options ≠ []) :
    cutOptions (",".intercalate options) = options ↔ ∀ o ∈ options, ',' ∉ o.toList :=
  Text.cutAt_intercalate_iff rfl h

theorem receivedOptions_cons {argument : String} (h : argument ≠ "-P") (rest : List String) :
    receivedOptions (argument :: rest) = receivedOptions rest := by
  cases rest with
  | nil => rfl
  | cons next rest => rw [receivedOptions, if_neg h]

theorem receivedOptions_flag (argument : String) (rest : List String) :
    receivedOptions ("-P" :: argument :: rest) = cutOptions argument :: receivedOptions rest := by
  rw [receivedOptions, if_pos rfl]

theorem append_ne_flag {lead : String} (hlead : lead.toList.take 2 = ['-', 'X']) (s : String) :
    lead ++ s ≠ "-P" := by
  intro h
  have hlength : 2 ≤ lead.toList.length := by
    have hlen := congrArg List.length hlead
    rw [List.length_take, List.length_cons, List.length_singleton] at hlen
    omega
  have htake : (lead ++ s).toList.take 2 = ['-', 'X'] := by
    rw [String.toList_append, List.take_append_of_le_length hlength, hlead]
  rw [h] at htake
  exact absurd htake (by decide)

/-! ### Options by plugin -/

/-- The options of each compiler plugin that has any, as the plugin is to receive them. -/
def givenOptions (generated : Path) (plugins : SortedMap Path (SortedMap String String)) :
    List (List String) :=
  (plugins.entries.filter (!·.2.isEmpty)).map fun plugin => plugin.2.entries.map (pluginOption generated)

theorem receivedOptions_pluginArguments (root generated : Path)
    (plugins : List (Path × SortedMap String String)) (rest : List String) :
    receivedOptions (plugins.flatMap (pluginArguments root generated) ++ rest) =
      ((plugins.filter (!·.2.isEmpty)).map fun plugin =>
        cutOptions (",".intercalate (plugin.2.entries.map (pluginOption generated)))) ++
        receivedOptions rest := by
  induction plugins with
  | nil => rfl
  | cons plugin plugins ih =>
    have hflag : "-Xplugin=" ++ (root.absolutize plugin.1).spelling ≠ "-P" :=
      append_ne_flag (by decide) _
    rw [List.flatMap_cons, pluginArguments, List.append_assoc, List.cons_append, receivedOptions_cons hflag]
    by_cases hempty : plugin.2.isEmpty = true
    · rw [if_pos hempty, List.nil_append, ih, List.filter_cons_of_neg (by simp [hempty])]
    · rw [if_neg hempty, List.filter_cons_of_pos (by simp [hempty]), List.cons_append, List.cons_append,
        List.nil_append, receivedOptions_flag, ih, List.map_cons, List.cons_append]

/-! ### The options of annotation processing -/

section Processing
variable {root : Path} {s : Kapt.Settings} {options : List String}

theorem pluginOptions_eq_ok (h : s.pluginOptions root = .ok options) :
    ∃ apOptions javacArguments, OptionToken.encode s.options = .ok apOptions ∧
      OptionToken.encode s.javacArguments = .ok javacArguments ∧
      options = [Kapt.Settings.pluginOption "aptMode=" "compile"]
        ++ s.processorClasspath.map (fun jar => Kapt.Settings.pluginOption "apclasspath=" jar.spelling)
        ++ s.processors.map (Kapt.Settings.pluginOption "processors=")
        ++ [Kapt.Settings.pluginOption "sources=" (root.join s.dirs.sources).spelling,
          Kapt.Settings.pluginOption "classes=" (root.join s.dirs.classes).spelling,
          Kapt.Settings.pluginOption "stubs=" (root.join s.dirs.stubs).spelling,
          Kapt.Settings.pluginOption "apoptions=" apOptions,
          Kapt.Settings.pluginOption "javacArguments=" javacArguments,
          Kapt.Settings.pluginOption "useLightAnalysis=" "true",
          Kapt.Settings.pluginOption "correctErrorTypes=" "true"]
        ++ (if s.reportsTimings then
          [Kapt.Settings.pluginOption "dumpProcessorTimings=" (root.join s.dirs.timings).spelling]
          else []) := by
  obtain ⟨apOptions, hap, h⟩ := bind_eq_ok.1 h
  obtain ⟨javacArguments, hjavac, h⟩ := bind_eq_ok.1 h
  obtain rfl := Except.ok.inj h
  exact ⟨apOptions, javacArguments, mapError_eq_ok.1 hap, mapError_eq_ok.1 hjavac, rfl⟩

/-- The names of the options of the plugin, each with its equals sign. -/
def optionNames : List String :=
  ["aptMode=", "apclasspath=", "processors=", "sources=", "classes=", "stubs=", "apoptions=", "javacArguments=",
    "useLightAnalysis=", "correctErrorTypes=", "dumpProcessorTimings="]

/-- No name is what another one starts with. -/
theorem eq_of_startsWith_optionName :
    ∀ name ∈ optionNames, ∀ other ∈ optionNames, name.toList <+: other.toList → name = other := by
  decide +kernel

/-- The name and the value can be read off an option. -/
theorem pluginOption_inj {name other value value' : String} (hname : name ∈ optionNames)
    (hother : other ∈ optionNames) :
    Kapt.Settings.pluginOption name value = Kapt.Settings.pluginOption other value' ↔
      name = other ∧ value = value' := by
  constructor
  · intro h
    have hchars : name.toList ++ value.toList = other.toList ++ value'.toList := by
      have hlists := congrArg String.toList h
      simpa only [Kapt.Settings.pluginOption, String.toList_append, List.append_assoc,
        List.append_cancel_left_eq] using hlists
    have hnames : name = other := by
      rcases List.prefix_or_prefix_of_prefix ⟨_, hchars⟩ (List.prefix_append other.toList value'.toList) with hle | hle
      · exact eq_of_startsWith_optionName name hname other hother hle
      · exact (eq_of_startsWith_optionName other hother name hname hle).symm
    rw [hnames, List.append_cancel_left_eq, String.toList_inj] at hchars
    exact ⟨hnames, hchars⟩
  · intro h
    rw [h.1, h.2]

/-- The options by name and value. -/
def namedOptions (root : Path) (s : Kapt.Settings) (apOptions javacArguments : String) : List (String × String) :=
  [("aptMode=", "compile")] ++ s.processorClasspath.map (fun jar => ("apclasspath=", jar.spelling))
    ++ s.processors.map (fun processor => ("processors=", processor))
    ++ [("sources=", (root.join s.dirs.sources).spelling), ("classes=", (root.join s.dirs.classes).spelling),
      ("stubs=", (root.join s.dirs.stubs).spelling), ("apoptions=", apOptions), ("javacArguments=", javacArguments),
      ("useLightAnalysis=", "true"), ("correctErrorTypes=", "true")]
    ++ (if s.reportsTimings then [("dumpProcessorTimings=", (root.join s.dirs.timings).spelling)] else [])

theorem mem_optionNames_of_mem {apOptions javacArguments : String} {e : String × String}
    (h : e ∈ namedOptions root s apOptions javacArguments) : e.1 ∈ optionNames := by
  simp only [namedOptions, List.mem_append, List.mem_map, List.mem_cons, List.not_mem_nil, or_false] at h
  rcases h with (((rfl | ⟨jar, -, rfl⟩) | ⟨processor, -, rfl⟩) | hfixed) | htimings
  · simp [optionNames]
  · simp [optionNames]
  · simp [optionNames]
  · rcases hfixed with rfl | rfl | rfl | rfl | rfl | rfl | rfl <;> simp [optionNames]
  · split at htimings
    · rw [List.mem_singleton.1 htimings]
      simp [optionNames]
    · cases htimings

/-- What is passed under a name. -/
theorem pluginOption_mem_iff (h : s.pluginOptions root = .ok options) :
    ∃ apOptions javacArguments, OptionToken.encode s.options = .ok apOptions ∧
      OptionToken.encode s.javacArguments = .ok javacArguments ∧
      ∀ name ∈ optionNames, ∀ value, Kapt.Settings.pluginOption name value ∈ options ↔
        (name, value) ∈ namedOptions root s apOptions javacArguments := by
  obtain ⟨apOptions, javacArguments, hap, hjavac, hoptions⟩ := pluginOptions_eq_ok h
  refine ⟨apOptions, javacArguments, hap, hjavac, fun name hname value => ?_⟩
  have hmap : options = (namedOptions root s apOptions javacArguments).map
      fun e => Kapt.Settings.pluginOption e.1 e.2 := by
    rw [hoptions, namedOptions]
    split <;> simp [Function.comp_def]
  rw [hmap, List.mem_map]
  constructor
  · intro hmem
    obtain ⟨e, he, heq⟩ := hmem
    obtain ⟨rfl, rfl⟩ := (pluginOption_inj (mem_optionNames_of_mem he) hname).1 heq
    exact he
  · intro hmem
    exact ⟨_, hmem, rfl⟩

theorem comma_not_mem_token {map : SortedMap String String} {token : String}
    (h : OptionToken.encode map = .ok token) : ',' ∉ token.toList := by
  rw [OptionToken.encode] at h
  cases hpayload : OptionToken.encodePayload map with
  | error e =>
    rw [hpayload] at h
    cases h
  | ok payload =>
    rw [hpayload] at h
    obtain rfl := Except.ok.inj h
    exact Bytes.Base64.comma_not_mem_encode _

theorem comma_mem_pluginOption_iff {name : String} (hname : ',' ∉ name.toList) (value : String) :
    ',' ∈ (Kapt.Settings.pluginOption name value).toList ↔ ',' ∈ value.toList := by
  have hlead : ',' ∉ Kapt.Settings.optionLead.toList := by decide
  rw [Kapt.Settings.pluginOption, String.toList_append, String.toList_append, List.mem_append,
    List.mem_append, or_iff_right hlead, or_iff_right hname]

/-- What an option holds: a jar, the name of a processor, a directory, or something without commas. -/
inductive IsOptionValue (root : Path) (s : Kapt.Settings) : String → Prop where
  | jar {jar : Path} (hjar : jar ∈ s.processorClasspath) : IsOptionValue root s jar.spelling
  | processor {name : String} (hname : name ∈ s.processors) : IsOptionValue root s name
  | place {dir : Path} (hdir : dir ∈ [s.dirs.sources, s.dirs.classes, s.dirs.stubs, s.dirs.timings]) :
    IsOptionValue root s (root.join dir).spelling
  | plain {value : String} (hvalue : ',' ∉ value.toList) : IsOptionValue root s value

theorem mem_pluginOptions (h : s.pluginOptions root = .ok options) {o : String} (ho : o ∈ options) :
    ∃ name value, o = Kapt.Settings.pluginOption name value ∧ ',' ∉ name.toList ∧
      IsOptionValue root s value := by
  obtain ⟨apOptions, javacArguments, hap, hjavac, rfl⟩ := pluginOptions_eq_ok h
  rw [List.mem_append, List.mem_append, List.mem_append, List.mem_append] at ho
  rcases ho with (((ho | ho) | ho) | ho) | ho
  · exact ⟨_, _, List.mem_singleton.1 ho, by decide, .plain (by decide)⟩
  · obtain ⟨jar, hjar, rfl⟩ := List.mem_map.1 ho
    exact ⟨_, _, rfl, by decide, .jar hjar⟩
  · obtain ⟨processor, hprocessor, rfl⟩ := List.mem_map.1 ho
    exact ⟨_, _, rfl, by decide, .processor hprocessor⟩
  · simp only [List.mem_cons, List.not_mem_nil, or_false] at ho
    rcases ho with rfl | rfl | rfl | rfl | rfl | rfl | rfl
    · exact ⟨_, _, rfl, by decide, .place (by simp)⟩
    · exact ⟨_, _, rfl, by decide, .place (by simp)⟩
    · exact ⟨_, _, rfl, by decide, .place (by simp)⟩
    · exact ⟨_, _, rfl, by decide, .plain (comma_not_mem_token hap)⟩
    · exact ⟨_, _, rfl, by decide, .plain (comma_not_mem_token hjavac)⟩
    · exact ⟨_, _, rfl, by decide, .plain (by decide)⟩
    · exact ⟨_, _, rfl, by decide, .plain (by decide)⟩
  · split at ho
    · exact ⟨_, _, List.mem_singleton.1 ho, by decide, .place (by simp)⟩
    · cases ho

theorem pluginOptions_shape (h : s.pluginOptions root = .ok options) :
    options.head? = some "plugin:org.jetbrains.kotlin.kapt3:aptMode=compile" ∧
      ∀ o ∈ options, ∃ rest, o = Kapt.Settings.optionLead ++ rest := by
  constructor
  · obtain ⟨apOptions, javacArguments, -, -, rfl⟩ := pluginOptions_eq_ok h
    rfl
  · intro o ho
    obtain ⟨name, value, rfl, -⟩ := mem_pluginOptions h ho
    exact ⟨name ++ value, String.append_assoc⟩

theorem stubs_mem_pluginOptions (h : s.pluginOptions root = .ok options) :
    Kapt.Settings.pluginOption "stubs=" (root.join s.dirs.stubs).spelling ∈ options := by
  obtain ⟨apOptions, javacArguments, -, -, rfl⟩ := pluginOptions_eq_ok h
  simp

end Processing

/-! ### What the compiler receives -/

section Reception
variable {root generated : Path} {unit : SourceUnit} {toolchain : Toolchain} {settings : Option Kapt.Settings}
  {friends : Friends.Staged} {run : KotlincRun}

def processingOptions (root : Path) : Option Kapt.Settings → Except PlanError (List (List String))
  | some s => (s.pluginOptions root).map fun options => [options]
  | none => .ok []

theorem processingOptions_eq_ok {processing : List (List String)}
    (h : processingOptions root settings = .ok processing) :
    (settings = none ∧ processing = []) ∨
      ∃ s options, settings = some s ∧ s.pluginOptions root = .ok options ∧ processing = [options] := by
  cases settings with
  | none => exact .inl ⟨rfl, (Except.ok.inj h).symm⟩
  | some s =>
    right
    cases hoptions : s.pluginOptions root with
    | error e =>
      rw [processingOptions, hoptions] at h
      cases h
    | ok options =>
      rw [processingOptions, hoptions] at h
      exact ⟨s, options, rfl, hoptions, (Except.ok.inj h).symm⟩

theorem argument_ne_flag (paths : SortedSet Path) : Friends.argument paths ≠ "-P" := by
  rw [Friends.argument]
  split
  · decide
  · exact append_ne_flag (by decide) _

theorem receivedOptions_processingArguments {arguments : List String}
    (h : processingArguments root settings = .ok arguments) :
    ∃ processing, processingOptions root settings = .ok processing ∧
      receivedOptions arguments = processing.map fun options => cutOptions (",".intercalate options) := by
  cases settings with
  | none =>
    obtain rfl := Except.ok.inj h
    exact ⟨[], rfl, rfl⟩
  | some s =>
    obtain ⟨options, hoptions, h⟩ := bind_eq_ok.1 h
    obtain rfl := Except.ok.inj h
    refine ⟨[options], ?_, ?_⟩
    · rw [processingOptions, hoptions]
      rfl
    · rw [receivedOptions_cons (append_ne_flag (by decide) _), receivedOptions_flag]
      rfl

/-- Between the arguments for compiler plugins and the user's own stand those for annotation processing
and for the module. -/
theorem arguments_of_run (h : Kotlinc.run root unit toolchain settings friends generated = .ok run) :
    ∃ processing, processingArguments root settings = .ok processing ∧
      run.arguments = Friends.argument friends.paths ::
        toolchain.compilerPlugins.entries.flatMap (pluginArguments root (root.join generated))
        ++ (processing ++ (["-module-name", unit.target.moduleName, "-no-stdlib", "-no-reflect"]
          ++ Javac.flag "-jvm-target" toolchain.jvmTarget))
        ++ toolchain.extraKotlincArguments := by
  obtain ⟨arguments, harguments, h⟩ := bind_eq_ok.1 h
  obtain rfl := Except.ok.inj h
  obtain ⟨processing, hprocessing, harguments⟩ := bind_eq_ok.1 harguments
  obtain rfl := Except.ok.inj harguments
  refine ⟨processing, hprocessing, ?_⟩
  simp only [List.append_assoc, List.cons_append]

/-- The arguments before the name of the module are those that carry options. -/
theorem receivedOptions_run (h : Kotlinc.run root unit toolchain settings friends generated = .ok run) :
    ∃ processing front, processingOptions root settings = .ok processing ∧
      run.arguments = front ++ ["-module-name", unit.target.moduleName, "-no-stdlib", "-no-reflect"]
        ++ Javac.flag "-jvm-target" toolchain.jvmTarget ++ toolchain.extraKotlincArguments ∧
      receivedOptions front =
        (givenOptions (root.join generated) toolchain.compilerPlugins ++ processing).map
          fun options => cutOptions (",".intercalate options) := by
  obtain ⟨inner, hinner, harguments⟩ := arguments_of_run h
  obtain ⟨processing, hprocessing, hreceived⟩ := receivedOptions_processingArguments hinner
  refine ⟨processing, Friends.argument friends.paths ::
    (toolchain.compilerPlugins.entries.flatMap (pluginArguments root (root.join generated)) ++ inner),
    hprocessing, ?_, ?_⟩
  · rw [harguments]
    simp only [List.append_assoc, List.cons_append]
  · rw [receivedOptions_cons (argument_ne_flag _), receivedOptions_pluginArguments, hreceived,
      List.map_append, givenOptions, List.map_map]
    rfl

theorem ne_nil_of_mem_givenOptions {plugins : SortedMap Path (SortedMap String String)}
    {options : List String} (h : options ∈ givenOptions generated plugins) : options ≠ [] := by
  obtain ⟨plugin, hplugin, rfl⟩ := List.mem_map.1 h
  have hnonempty := (List.mem_filter.1 hplugin).2
  intro hnil
  rw [List.map_eq_nil_iff] at hnil
  simp [SortedMap.isEmpty, hnil] at hnonempty

/-- All options arrive as they were given when, and only when, none of them holds a comma. -/
theorem received_eq_given_iff {given : List (List String)} (hgiven : ∀ options ∈ given, options ≠ []) :
    (given.map fun options => cutOptions (",".intercalate options)) = given ↔
      ∀ options ∈ given, ∀ o ∈ options, ',' ∉ o.toList := by
  have hid : given.map id = given := List.map_id given
  constructor
  · intro h options hoptions
    rw [← cutOptions_intercalate_iff (hgiven options hoptions)]
    exact List.map_inj_left.1 (h.trans hid.symm) options hoptions
  · intro h
    refine (List.map_inj_left.2 fun options hoptions => ?_).trans hid
    exact (cutOptions_intercalate_iff (hgiven options hoptions)).2 (h options hoptions)

end Reception

end Kotlinc

end JarPlan
