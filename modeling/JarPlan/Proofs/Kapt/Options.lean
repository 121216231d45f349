import JarPlan.Proofs.Kapt.Settings
import JarPlan.Proofs.Kapt.Tokens
import JarPlan.Proofs.Plan.PluginOptions
import JarPlan.Proofs.Sorted.Set
/-!
# Processor options from the parameters to the plugin

Parameters are a set of texts, and several may set one key. They become options in ascending order, where a
later value replaces an earlier one, so the greatest parameter for a key gives its value; the directory for
Kotlin sources comes first of all and stays only where no parameter sets its key. The plugin decodes the token
it is passed to the very same options, and that for the compiler inside it to the language level.
-/

namespace JarPlan.Kapt.Settings

/-! ### What parameters set -/

/-- Some parameter sets the key. -/
def Sets (parameters : SortedSet String) (key : String) : Prop := ∃ value, key ++ "=" ++ value ∈ parameters

/-- The greatest parameter that sets the key sets it to `value`. -/
def SetsTo (parameters : SortedSet String) (key value : String) : Prop :=
  key ++ "=" ++ value ∈ parameters ∧
    ∀ other, key ++ "=" ++ other ∈ parameters →
      (compare (key ++ "=" ++ other) (key ++ "=" ++ value)).isLE = true

theorem toList_parameter (key value : String) :
    (key ++ "=" ++ value).toList = key.toList ++ '=' :: value.toList := by
  rw [String.toList_append, String.toList_append, List.append_assoc]
  rfl

/-- The one equals sign of an assignment shows what is assigned to what. -/
theorem assignment_eq_iff {parameter key value : String} (h : IsAssignment parameter) :
    assignment parameter = (key, value) ↔ parameter = key ++ "=" ++ value := by
  obtain ⟨before, after, hparameter, -, -, hbefore, hafter⟩ := h
  rw [assignment_of_toList_eq hparameter hbefore, Prod.mk.injEq]
  constructor
  · intro h
    rw [← String.toList_inj, toList_parameter, hparameter, ← h.1, ← h.2, String.toList_ofList,
      String.toList_ofList]
  · rintro rfl
    rw [toList_parameter] at hparameter
    have hcount := congrArg (List.count '=') hparameter
    rw [List.count_append, List.count_append, List.count_cons_self, List.count_cons_self,
      List.count_eq_zero.2 hbefore, List.count_eq_zero.2 hafter] at hcount
    have hkey : '=' ∉ key.toList := List.count_eq_zero.1 (by omega)
    have hvalue : '=' ∉ value.toList := List.count_eq_zero.1 (by omega)
    have hparts := Text.splitOn_eq_pair_iff.2 ⟨hparameter, hbefore, hafter⟩
    rw [Text.splitOn_eq_pair_iff.2 ⟨rfl, hkey, hvalue⟩] at hparts
    obtain ⟨rfl, hrest⟩ := List.cons.inj hparts
    obtain ⟨rfl, -⟩ := List.cons.inj hrest
    exact ⟨String.ofList_toList, String.ofList_toList⟩

section Lookup
variable {parameters : SortedSet String} (h : ∀ parameter ∈ parameters, IsAssignment parameter)
  {key value : String}
include h

theorem lookup_eq_none_iff :
    (parameters.toList.map assignment).reverse.lookup key = none ↔ ¬ Sets parameters key := by
  rw [List.lookup_eq_none_iff]
  constructor
  · intro hnone hsets
    obtain ⟨value, hmem⟩ := hsets
    have hkey := hnone _ (List.mem_reverse.2 (List.mem_map_of_mem hmem))
    rw [(assignment_eq_iff (h _ hmem)).2 rfl] at hkey
    simp at hkey
  · intro hsets e he
    obtain ⟨parameter, hmem, rfl⟩ := List.mem_map.1 (List.mem_reverse.1 he)
    rw [bne_iff_ne]
    rintro rfl
    have hparameter : parameter = (assignment parameter).1 ++ "=" ++ (assignment parameter).2 :=
      (assignment_eq_iff (h parameter hmem)).1 rfl
    refine hsets ⟨(assignment parameter).2, ?_⟩
    rw [← hparameter]
    exact hmem

/-- The last of the parameters that set a key is the greatest one. -/
theorem setsTo_of_lookup (hlookup : (parameters.toList.map assignment).reverse.lookup key = some value) :
    SetsTo parameters key value := by
  obtain ⟨later, earlier, hsplit, hlater⟩ := List.lookup_eq_some_iff.1 hlookup
  have hentries : parameters.toList.map assignment = earlier.reverse ++ (key, value) :: later.reverse := by
    rw [← List.reverse_reverse (parameters.toList.map assignment), hsplit, List.reverse_append, List.reverse_cons,
      List.append_assoc, List.singleton_append]
  obtain ⟨before, rest, hlist, -, hrest⟩ := List.map_eq_append_iff.1 hentries
  obtain ⟨parameter, after, rfl, hassignment, hafter⟩ := List.map_eq_cons_iff.1 hrest
  have hmem : parameter ∈ parameters := by
    rw [← SortedSet.mem_toList, hlist]
    exact List.mem_append_right _ List.mem_cons_self
  obtain rfl := (assignment_eq_iff (h parameter hmem)).1 hassignment
  refine ⟨hmem, fun other hother => ?_⟩
  rcases SortedSet.cases_of_split hlist hother with ⟨-, hlt⟩ | hsame | ⟨hlast, -⟩
  · rw [hlt]
    rfl
  · have hself : compare (key ++ "=" ++ value) (key ++ "=" ++ value) = .eq := Std.ReflCmp.compare_self
    rw [hsame, hself]
    rfl
  · -- behind the last parameter for the key there is none for it
    have hbehind : (key, other) ∈ later := by
      rw [← (assignment_eq_iff (h _ hother)).2 rfl, ← List.mem_reverse, ← hafter]
      exact List.mem_map_of_mem hlast
    have hkey := hlater _ hbehind
    simp at hkey

theorem lookup_eq_some_iff :
    (parameters.toList.map assignment).reverse.lookup key = some value ↔ SetsTo parameters key value := by
  constructor
  · exact setsTo_of_lookup h
  · intro hsets
    cases hlookup : (parameters.toList.map assignment).reverse.lookup key with
    | none => exact absurd ⟨value, hsets.1⟩ ((lookup_eq_none_iff h).1 hlookup)
    | some other =>
      have hother := setsTo_of_lookup h hlookup
      have htie := Std.OrientedCmp.isLE_antisymm (hsets.2 other hother.1) (hother.2 value hsets.1)
      have hsame : key ++ "=" ++ other = key ++ "=" ++ value := Std.LawfulEqOrd.eq_of_compare htie
      rw [String.append_right_inj] at hsame
      rw [hsame]

/-- A key is set by its greatest parameter, and the one for Kotlin sources is set in any case. -/
theorem mem_mergedOptions_iff (root : Path) (dirs : Directories) :
    (key, value) ∈ (mergedOptions root dirs parameters).entries ↔
      SetsTo parameters key value ∨
        key = kotlinSourcesKey ∧ ¬ Sets parameters key ∧ value = (root.join dirs.kotlinSources).spelling := by
  rw [SortedMap.mem_entries_iff, mergedOptions, SortedMap.get?_ofList, List.reverse_cons, List.lookup_append,
    ← lookup_eq_some_iff h, ← lookup_eq_none_iff h]
  cases (parameters.toList.map assignment).reverse.lookup key with
  | some other => simp
  | none =>
    by_cases hkey : key = kotlinSourcesKey
    · simp [hkey, eq_comm]
    · simp [hkey, List.lookup_cons, beq_false_of_ne hkey]

theorem exists_mem_mergedOptions_iff (root : Path) (dirs : Directories) :
    (∃ value, (key, value) ∈ (mergedOptions root dirs parameters).entries) ↔
      key = kotlinSourcesKey ∨ Sets parameters key := by
  simp only [mem_mergedOptions_iff h]
  constructor
  · intro hentry
    obtain ⟨value, hsets | hdefault⟩ := hentry
    · exact .inr ⟨value, hsets.1⟩
    · exact .inl hdefault.1
  · intro hkey
    by_cases hsets : Sets parameters key
    · cases hlookup : (parameters.toList.map assignment).reverse.lookup key with
      | none => exact absurd hsets ((lookup_eq_none_iff h).1 hlookup)
      | some value => exact ⟨value, .inl (setsTo_of_lookup h hlookup)⟩
    · exact ⟨_, .inr ⟨hkey.resolve_right hsets, hsets, rfl⟩⟩

end Lookup

/-! ### What the plugin decodes -/

theorem entries_levels_eq (level : Option String) : (levels level).entries =
    (level.map fun text => [("-source", text), ("-target", text)]).getD [] := by
  cases level with
  | none => rfl
  | some text => exact entries_levels text

section Plugin
variable {s : Settings} {root : Path} {options : List String}

/-- One token is passed under each of the two names, and it decodes to the map of the settings. -/
theorem exists_tokens_of_pluginOptions (h : s.pluginOptions root = .ok options) :
    ∃ apOptions javacArguments, OptionToken.decode apOptions = .ok s.options ∧
      OptionToken.decode javacArguments = .ok s.javacArguments ∧
      (∀ text, pluginOption "apoptions=" text ∈ options ↔ text = apOptions) ∧
      ∀ text, pluginOption "javacArguments=" text ∈ options ↔ text = javacArguments := by
  obtain ⟨apOptions, javacArguments, hap, hjavac, hmem⟩ := Kotlinc.pluginOption_mem_iff h
  refine ⟨apOptions, javacArguments, OptionToken.decode_of_encode hap, OptionToken.decode_of_encode hjavac,
    fun text => ?_, fun text => ?_⟩
  · rw [hmem _ (by simp [Kotlinc.optionNames]), Kotlinc.namedOptions]
    split <;> simp
  · rw [hmem _ (by simp [Kotlinc.optionNames]), Kotlinc.namedOptions]
    split <;> simp

end Plugin

/-- The options have the keys that parameters set and the one for Kotlin sources. A key that parameters set has
the value of the greatest of them; the one for Kotlin sources has the directory for them where none does. When
the arguments for the plugin can be put together, the plugin gets just these options, decoded from the one text
it is passed for them, and the language level, if there is one, from the one text for the compiler inside it. -/
theorem options_reach_plugin {root : Path} {t : Target} {dirs : Directories} {request : Processing}
    {toolchain : Toolchain} {s : Settings} (h : assemble root t dirs request toolchain = .ok s) :
    (∀ key, (∃ value, (key, value) ∈ s.options.entries) ↔ key = kotlinSourcesKey ∨ Sets request.parameters key) ∧
    (∀ key value, (key, value) ∈ s.options.entries ↔
      SetsTo request.parameters key value ∨ key = kotlinSourcesKey ∧ ¬ Sets request.parameters key ∧
        value = (root.join dirs.kotlinSources).spelling) ∧
    ∀ arguments, s.arguments root = .ok arguments →
      ∃ options apOptions javacArguments levels, s.pluginOptions root = .ok options ∧
        arguments = ["-Xplugin=" ++ s.pluginJar.spelling, "-P", ",".intercalate options] ∧
        (∀ text, pluginOption "apoptions=" text ∈ options ↔ text = apOptions) ∧
        OptionToken.decode apOptions = .ok s.options ∧
        (∀ text, pluginOption "javacArguments=" text ∈ options ↔ text = javacArguments) ∧
        OptionToken.decode javacArguments = .ok levels ∧
        levels.entries =
          (toolchain.jvmTarget.map fun level => [("-source", level), ("-target", level)]).getD [] := by
  obtain ⟨hparameters, hoptions, hlevels⟩ := options_of_assemble h
  rw [hoptions]
  refine ⟨fun key => exists_mem_mergedOptions_iff hparameters root dirs,
    fun key value => mem_mergedOptions_iff hparameters root dirs, fun arguments harguments => ?_⟩
  obtain ⟨options, hplugin, harguments⟩ := bind_eq_ok.1 harguments
  obtain rfl := Except.ok.inj harguments
  obtain ⟨apOptions, javacArguments, hap, hjavac, hapMem, hjavacMem⟩ := exists_tokens_of_pluginOptions hplugin
  refine ⟨options, apOptions, javacArguments, s.javacArguments, hplugin, rfl, hapMem, ?_, hjavacMem, hjavac, ?_⟩
  · rw [hap, hoptions]
  · rw [hlevels, entries_levels_eq]

/-! Two parameters for one key, and one for the key that is always there. -/

def leveledToolchain : Toolchain where
  standardLibrary := some ⟨"stdlib.jar"⟩
  processingJar := some ⟨"kapt.jar"⟩
  jvmTarget := some "11"

def repeatedParameters : Processing where
  parameters := .ofList ["b=2", "a=3", "kapt.kotlin.generated=/gen", "a=1"]

theorem repeatedParameters_reach_plugin :
    ∃ s arguments options apOptions,
      assemble ⟨"/r"⟩ ⟨"lib", "a", ∅⟩ (.standard (.below ⟨"out"⟩) ⟨"lib", "a", ∅⟩) repeatedParameters
        leveledToolchain = .ok s ∧
      ("a", "3") ∈ s.options.entries ∧ (kotlinSourcesKey, "/gen") ∈ s.options.entries ∧
      s.arguments ⟨"/r"⟩ = .ok arguments ∧
      s.pluginOptions ⟨"/r"⟩ = .ok options ∧
      arguments = ["-Xplugin=" ++ s.pluginJar.spelling, "-P", ",".intercalate options] ∧
      pluginOption "apoptions=" apOptions ∈ options ∧ OptionToken.decode apOptions = .ok s.options := by
  have hrun : (do
      let s ← assemble ⟨"/r"⟩ ⟨"lib", "a", ∅⟩ (.standard (.below ⟨"out"⟩) ⟨"lib", "a", ∅⟩) repeatedParameters
        leveledToolchain
      s.arguments ⟨"/r"⟩).toBool = true := by decide +kernel
  obtain ⟨arguments, hrun⟩ := exists_ok_of_toBool hrun
  obtain ⟨s, hs, harguments⟩ := bind_eq_ok.1 hrun
  obtain ⟨-, hentries, hplugin⟩ := options_reach_plugin hs
  obtain ⟨options, apOptions, -, -, hoptions, hparts, hmem, hdecode, -⟩ := hplugin arguments harguments
  have hassignments : ∀ parameter ∈ repeatedParameters.parameters, IsAssignment parameter := by decide +kernel
  refine ⟨s, arguments, options, apOptions, hs, ?_, ?_, harguments, hoptions, hparts, (hmem _).2 rfl, hdecode⟩
  · exact (hentries _ _).2 (.inl ((lookup_eq_some_iff hassignments).1 (by decide +kernel)))
  · exact (hentries _ _).2 (.inl ((lookup_eq_some_iff hassignments).1 (by decide +kernel)))

end JarPlan.Kapt.Settings
