import JarPlan.Plan.Basic
import JarPlan.Proofs.Text.Pieces
/-!
# What settings are assembled from

Settings take two jars and the parameters of the processors. They cannot be assembled where a jar is
missing, the jar of the plugin being looked for first, or where a parameter is no assignment, and then it
is the first such parameter that is reported. Otherwise they can be, and the processor options are what
the parameters assign, above the one option that is always there.
-/

namespace JarPlan

namespace Kapt.Settings

/-! ### Parameters -/

/-- A key and a value, neither of them empty, with the one equals sign between them. -/
def IsAssignment (parameter : String) : Prop :=
  ∃ key value, parameter.toList = key ++ '=' :: value ∧ key ≠ [] ∧ value ≠ [] ∧ '=' ∉ key ∧ '=' ∉ value

/-- What stands before the first equals sign and what stands after it. -/
def assignment (parameter : String) : String × String :=
  (String.ofList (parameter.toList.takeWhile (· ≠ '=')),
    String.ofList ((parameter.toList.dropWhile (· ≠ '=')).drop 1))

theorem assignment_of_toList_eq {parameter : String} {key value : List Char}
    (h : parameter.toList = key ++ '=' :: value) (hkey : '=' ∉ key) :
    assignment parameter = (String.ofList key, String.ofList value) := by
  have hpass : ∀ c ∈ key, decide (c ≠ '=') = true := by
    intro c hc
    rw [decide_eq_true_eq]
    rintro rfl
    exact hkey hc
  rw [assignment, h, List.takeWhile_append_of_pos hpass, List.dropWhile_append_of_pos hpass]
  simp

theorem parseParameter_of_isAssignment {parameter : String} (h : IsAssignment parameter) :
    parseParameter parameter = .ok (assignment parameter) := by
  obtain ⟨key, value, hparameter, hkey, hvalue, hkeyFree, hvalueFree⟩ := h
  have hpieces := Text.splitOn_eq_pair_iff.2 ⟨hparameter, hkeyFree, hvalueFree⟩
  rw [parseParameter, hpieces, assignment_of_toList_eq hparameter hkeyFree]
  simp [hkey, hvalue]

theorem parseParameter_of_not_isAssignment {parameter : String} (h : ¬ IsAssignment parameter) :
    parseParameter parameter = .error (.malformedParameter parameter) := by
  rw [parseParameter]
  split
  · rename_i key value hpieces
    obtain ⟨hparameter, hkeyFree, hvalueFree⟩ := Text.splitOn_eq_pair_iff.1 hpieces
    split
    · rfl
    · rename_i hempty
      simp only [Bool.or_eq_true, List.isEmpty_iff, not_or] at hempty
      exact absurd ⟨key, value, hparameter, hempty.1, hempty.2, hkeyFree, hvalueFree⟩ h
  · rfl

theorem toBool_parseParameter_iff (parameter : String) :
    (parseParameter parameter).toBool = true ↔ IsAssignment parameter := by
  by_cases h : IsAssignment parameter
  · simp [h, parseParameter_of_isAssignment h, Except.toBool]
  · simp [h, parseParameter_of_not_isAssignment h, Except.toBool]

instance : DecidablePred IsAssignment :=
  fun parameter => decidable_of_iff _ (toBool_parseParameter_iff parameter)

/-- The processor options that the parameters make, above the one that is always there. -/
def mergedOptions (root : Path) (dirs : Directories) (parameters : SortedSet String) :
    SortedMap String String :=
  .ofList ((kotlinSourcesKey, (root.join dirs.kotlinSources).spelling) :: parameters.toList.map assignment)

theorem processorOptions_eq_match (root : Path) (dirs : Directories) (request : Processing) :
    processorOptions root dirs request =
      match request.parameters.toList.find? (fun parameter => ¬ IsAssignment parameter) with
      | some parameter => .error (.malformedParameter parameter)
      | none => .ok (mergedOptions root dirs request.parameters) := by
  rw [processorOptions, mapM_eq_match (fun _ => parseParameter_of_isAssignment)
    fun _ => parseParameter_of_not_isAssignment]
  cases request.parameters.toList.find? fun parameter => ¬ IsAssignment parameter <;> rfl

/-! ### Settings -/

section Assemble
variable {root : Path} {t : Target} {dirs : Directories} {request : Processing} {toolchain : Toolchain}

theorem require_eq_ok {jar : Option Path} {missing : PlanError} {p : Path}
    (h : require root jar missing = .ok p) : ∃ entry ∈ jar, p = root.absolutize entry := by
  cases jar with
  | none => cases h
  | some entry => exact ⟨entry, rfl, (Except.ok.inj h).symm⟩

theorem assemble_eq_ok {s : Settings} (h : assemble root t dirs request toolchain = .ok s) :
    s.dirs = dirs ∧ s.processors = request.processors ∧
      ∀ jar ∈ s.processorClasspath, ∃ entry, jar = root.absolutize entry ∧
        (entry ∈ toolchain.processingJar ∨ entry ∈ toolchain.standardLibrary ∨ entry ∈ request.classpath) := by
  obtain ⟨pluginJar, hplugin, h⟩ := bind_eq_ok.1 h
  obtain ⟨library, hlibrary, h⟩ := bind_eq_ok.1 h
  obtain ⟨options, -, h⟩ := bind_eq_ok.1 h
  obtain rfl := Except.ok.inj h
  refine ⟨rfl, rfl, fun jar hjar => ?_⟩
  dsimp only at hjar
  rw [List.mem_append, List.mem_pair] at hjar
  rcases hjar with (rfl | rfl) | hjar
  · obtain ⟨entry, hentry, rfl⟩ := require_eq_ok hplugin
    exact ⟨entry, rfl, .inl hentry⟩
  · obtain ⟨entry, hentry, rfl⟩ := require_eq_ok hlibrary
    exact ⟨entry, rfl, .inr (.inl hentry)⟩
  · obtain ⟨entry, hentry, rfl⟩ := List.mem_map.1 hjar
    exact ⟨entry, rfl, .inr (.inr hentry)⟩

/-- The options are those that the parameters make, which are all assignments. -/
theorem options_of_assemble {s : Settings} (h : assemble root t dirs request toolchain = .ok s) :
    (∀ parameter ∈ request.parameters, IsAssignment parameter) ∧
      s.options = mergedOptions root dirs request.parameters ∧ s.javacArguments = levels toolchain.jvmTarget := by
  obtain ⟨pluginJar, -, h⟩ := bind_eq_ok.1 h
  obtain ⟨library, -, h⟩ := bind_eq_ok.1 h
  obtain ⟨options, hoptions, h⟩ := bind_eq_ok.1 h
  obtain rfl := Except.ok.inj h
  rw [processorOptions_eq_match] at hoptions
  split at hoptions
  · cases hoptions
  · rename_i hnone
    refine ⟨fun parameter hparameter => ?_, (Except.ok.inj hoptions).symm, rfl⟩
    simpa using List.find?_eq_none.1 hnone parameter hparameter

theorem assemble_of_no_processingJar (hjar : toolchain.processingJar = none) :
    assemble root t dirs request toolchain = .error (.missingProcessingClasspath t.label) := by
  rw [assemble, hjar]
  rfl

theorem assemble_of_no_standardLibrary (hjar : toolchain.processingJar ≠ none)
    (hlibrary : toolchain.standardLibrary = none) :
    assemble root t dirs request toolchain = .error (.missingStandardLibrary t.label) := by
  obtain ⟨jar, hjar⟩ := Option.ne_none_iff_exists'.1 hjar
  rw [assemble, hjar, hlibrary]
  rfl

section Jars
variable (hjar : toolchain.processingJar ≠ none) (hlibrary : toolchain.standardLibrary ≠ none)
include hjar hlibrary

theorem assemble_of_find? {parameter : String}
    (h : request.parameters.toList.find? (fun parameter => ¬ IsAssignment parameter) = some parameter) :
    assemble root t dirs request toolchain = .error (.malformedParameter parameter) := by
  obtain ⟨jar, hjar⟩ := Option.ne_none_iff_exists'.1 hjar
  obtain ⟨library, hlibrary⟩ := Option.ne_none_iff_exists'.1 hlibrary
  rw [assemble, hjar, hlibrary, processorOptions_eq_match, h]
  rfl

theorem assemble_of_assignments (h : ∀ parameter ∈ request.parameters, IsAssignment parameter) :
    ∃ s, assemble root t dirs request toolchain = .ok s ∧
      s.options = mergedOptions root dirs request.parameters ∧ s.javacArguments = levels toolchain.jvmTarget := by
  obtain ⟨jar, hjar⟩ := Option.ne_none_iff_exists'.1 hjar
  obtain ⟨library, hlibrary⟩ := Option.ne_none_iff_exists'.1 hlibrary
  have hnone : request.parameters.toList.find? (fun parameter => ¬ IsAssignment parameter) = none := by
    rw [List.find?_eq_none]
    intro parameter hparameter
    simpa using h parameter hparameter
  rw [assemble, hjar, hlibrary, processorOptions_eq_match, hnone]
  exact ⟨_, rfl, rfl, rfl⟩

end Jars

end Assemble

end Kapt.Settings

theorem Draft.settings_eq_ok {ws : Workspace} {unit : SourceUnit} {toolchain : Toolchain} {mode : CompileMode}
    {settings : Option Kapt.Settings} (h : Draft.settings ws unit toolchain mode = .ok settings) :
    (mode ≠ .kotlinWithKapt ∧ settings = none) ∨ mode = .kotlinWithKapt ∧
      ∃ s, settings = some s ∧ Kapt.Settings.assemble ws.root unit.target (.standard ws.roots unit.target)
        toolchain.javacOptions.processing toolchain = .ok s := by
  cases mode with
  | javaOnly => exact .inl ⟨CompileMode.noConfusion, (Except.ok.inj h).symm⟩
  | kotlinWithoutKapt => exact .inl ⟨CompileMode.noConfusion, (Except.ok.inj h).symm⟩
  | kotlinWithKapt =>
    right
    rw [Draft.settings] at h
    cases hassemble : Kapt.Settings.assemble ws.root unit.target (.standard ws.roots unit.target)
        toolchain.javacOptions.processing toolchain with
    | error e =>
      rw [hassemble] at h
      cases h
    | ok s =>
      rw [hassemble] at h
      exact ⟨rfl, s, (Except.ok.inj h).symm, rfl⟩

end JarPlan
