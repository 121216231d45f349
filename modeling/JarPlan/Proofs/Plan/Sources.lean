import JarPlan.Proofs.Path.Normal
import JarPlan.Proofs.Plan.Records
import JarPlan.Proofs.Sorted.Set
import Mathlib.Data.List.DropRight
/-!
# Which compiler gets which source

The name of a source says who compiles it. Kotlin files and archives are for the Kotlin compiler, which
runs as soon as there is one of them and is then given all sources of the unit, since it reads the Java
files as well. The Java pass gets what is neither, and with it the archive of what annotation processing
in the Kotlin compiler generates. An archive that the unit lists itself never comes that far, so none of
them can stand in for the generated one.
-/

namespace JarPlan

/-! ### Kinds of sources -/

namespace Path

/-- The name ends in `.kt`, and there is something in front of that. -/
def IsKotlinFile (p : Path) : Prop := ∃ stem, stem ≠ "" ∧ p.fileName? = some (stem ++ ".kt")

/-- The name ends in `.src.zip`. -/
def IsArchive (p : Path) : Prop := ∃ stem, p.fileName? = some (stem ++ ".src.zip")

/-- What follows the last dot of a name, where that does not come first. -/
theorem isEnding_iff (name ending : List Char) :
    name.rtakeWhile (· != '.') = ending ∧ (name.rtakeWhile (· != '.')).length + 1 < name.length ↔
      '.' ∉ ending ∧ ∃ stem, stem ≠ [] ∧ name = stem ++ '.' :: ending := by
  constructor
  · rintro ⟨rfl, hlength⟩
    have hsplit := List.rdropWhile_append_rtakeWhile (p := (· != '.')) (l := name)
    have hfront : 1 < (name.rdropWhile (· != '.')).length := by
      have hname := congrArg List.length hsplit
      rw [List.length_append] at hname
      omega
    have hnonempty : name.rdropWhile (· != '.') ≠ [] := List.ne_nil_of_length_pos (by omega)
    have hdot : (name.rdropWhile (· != '.')).getLast hnonempty = '.' := by
      simpa using List.rdropWhile_last_not _ name hnonempty
    have hstem := List.dropLast_concat_getLast hnonempty
    rw [hdot] at hstem
    refine ⟨fun hmem => by simpa using List.mem_rtakeWhile_imp hmem, (name.rdropWhile (· != '.')).dropLast, ?_, ?_⟩
    · rw [← List.length_pos_iff, List.length_dropLast]
      omega
    · rw [← List.singleton_append, ← List.append_assoc, hstem, hsplit]
  · rintro ⟨hfree, stem, hstem, rfl⟩
    have hpass : ∀ c ∈ ending.reverse, (c != '.') = true := by
      intro c hc
      rw [bne_iff_ne]
      rintro rfl
      exact hfree (List.mem_reverse.1 hc)
    have hlast : (stem ++ '.' :: ending).rtakeWhile (· != '.') = ending := by
      simp [List.rtakeWhile, List.takeWhile_append_of_pos hpass]
    have hlength := List.length_pos_iff.2 hstem
    rw [hlast, List.length_append, List.length_cons]
    exact ⟨rfl, by omega⟩

theorem isKotlinSource_iff {p : Path} : p.isKotlinSource = true ↔ p.IsKotlinFile := by
  rw [isKotlinSource, beq_iff_eq, extension?, IsKotlinFile]
  cases p.fileName? with
  | none => simp
  | some name =>
    have hending := isEnding_iff name.toList "kt".toList
    simp only [Option.bind_eq_bind, Option.bind_some, Option.ite_none_right_eq_some, Option.some_inj]
    rw [← String.toList_inj, String.toList_ofList, and_comm, ← List.length_reverse, ← List.rtakeWhile,
      ← String.length_toList]
    refine hending.trans ⟨fun h => ?_, fun h => ?_⟩
    · obtain ⟨-, stem, hstem, hname⟩ := h
      exact ⟨String.ofList stem, by simpa using hstem, by rw [← String.toList_inj, hname]; simp⟩
    · obtain ⟨stem, hstem, rfl⟩ := h
      exact ⟨by decide, stem.toList, by simpa using hstem, by simp⟩

theorem isSourceArchive_iff {p : Path} : p.isSourceArchive = true ↔ p.IsArchive := by
  rw [isSourceArchive, IsArchive]
  cases p.fileName? with
  | none => simp
  | some name =>
    rw [Option.any_some, List.isSuffixOf_iff_suffix]
    constructor
    · intro h
      obtain ⟨stem, hname⟩ := h
      exact ⟨String.ofList stem, by rw [Option.some_inj, ← String.toList_inj, ← hname]; simp⟩
    · intro h
      obtain ⟨stem, hname⟩ := h
      obtain rfl := Option.some.inj hname
      exact ⟨stem.toList, (String.toList_append).symm⟩

/-! A name that is only an ending is that of an archive, and not that of a Kotlin file. -/

example : Path.isKotlinSource ⟨"src/.kt"⟩ = false ∧ Path.isSourceArchive ⟨"src/.src.zip"⟩ = true := by decide +kernel

theorem isKotlinInput_eq_false_iff {p : Path} :
    p.isKotlinInput = false ↔ ¬ p.IsKotlinFile ∧ ¬ p.IsArchive := by
  rw [isKotlinInput, Bool.or_eq_false_iff, ← isKotlinSource_iff, ← isSourceArchive_iff, Bool.not_eq_true,
    Bool.not_eq_true]

end Path

theorem Kapt.Directories.isArchive_archive (d : Directories) : d.archive.IsArchive :=
  ⟨"generated", Path.fileName?_entry d.archiveDir (by decide)⟩

/-- The Java compiler is alone with a unit that has neither Kotlin files nor archives. -/
theorem CompileMode.decide_eq_javaOnly_iff {unit : SourceUnit} {toolchain : Toolchain} :
    CompileMode.decide unit toolchain = .javaOnly ↔
      ∀ source ∈ unit.sources, ¬ source.IsKotlinFile ∧ ¬ source.IsArchive := by
  have hruns : CompileMode.decide unit toolchain = .javaOnly ↔
      (CompileMode.decide unit toolchain).runsKotlinc = false := by
    cases CompileMode.decide unit toolchain <;> simp [runsKotlinc]
  rw [hruns, runsKotlinc_decide, SourceUnit.hasKotlinInput, List.any_eq_false]
  refine forall_congr' fun source => forall_congr' fun _ => ?_
  rw [Bool.not_eq_true, Path.isKotlinInput_eq_false_iff]

theorem Kotlinc.sources_of_run {root generated : Path} {unit : SourceUnit} {toolchain : Toolchain}
    {settings : Option Kapt.Settings} {friends : Friends.Staged} {run : KotlincRun}
    (h : Kotlinc.run root unit toolchain settings friends generated = .ok run) :
    run.sources = unit.sources.toList := by
  obtain ⟨arguments, -, h⟩ := bind_eq_ok.1 h
  obtain rfl := Except.ok.inj h
  rfl

/-! ### What is left for the Java pass -/

namespace Draft

theorem dirs_of_settings {ws : Workspace} {unit : SourceUnit} {toolchain : Toolchain} {mode : CompileMode}
    {s : Kapt.Settings} (h : settings ws unit toolchain mode = .ok (some s)) :
    s.dirs = .standard ws.roots unit.target := by
  rcases settings_eq_ok h with ⟨-, hnone⟩ | ⟨-, other, hother, hassemble⟩
  · cases hnone
  · obtain rfl := Option.some.inj hother
    exact (Kapt.Settings.assemble_eq_ok hassemble).1

theorem exists_archive_iff {ws : Workspace} {unit : SourceUnit} {toolchain : Toolchain} {mode : CompileMode}
    {settings : Option Kapt.Settings} (h : Draft.settings ws unit toolchain mode = .ok settings) {source : Path} :
    (∃ s ∈ settings, source = s.dirs.archive) ↔
      mode = .kotlinWithKapt ∧ source = (Kapt.Directories.standard ws.roots unit.target).archive := by
  rcases settings_eq_ok h with ⟨hmode, rfl⟩ | ⟨hmode, s, rfl, -⟩
  · simp [hmode]
  · simp [hmode, dirs_of_settings h]

theorem mem_restSources_iff {unit : SourceUnit} {settings : Option Kapt.Settings} {source : Path} :
    source ∈ restSources unit settings ↔
      (source ∈ unit.sources ∧ ¬ source.IsKotlinFile ∧ ¬ source.IsArchive) ∨
        ∃ s ∈ settings, source = s.dirs.archive := by
  have hrest : ∀ p, p ∈ SortedSet.collect (unit.sources.toList.filter (!·.isKotlinInput)) ↔
      p ∈ unit.sources ∧ ¬ p.IsKotlinFile ∧ ¬ p.IsArchive := by
    intro p
    rw [SortedSet.mem_collect_iff, List.mem_filter, Bool.not_eq_true', Path.isKotlinInput_eq_false_iff,
      SortedSet.mem_toList]
    intro a ha b hb
    exact SortedSet.eq_of_tie (List.mem_of_mem_filter ha) (List.mem_of_mem_filter hb)
  cases settings with
  | none => simp [restSources, hrest]
  | some s =>
    -- a source that ties with the archive would be one itself, and those are taken out
    have hfree : (SortedSet.collect (unit.sources.toList.filter (!·.isKotlinInput))).contains s.dirs.archive =
        false := by
      rw [Bool.eq_false_iff, Ne, SortedSet.contains_iff]
      intro h
      obtain ⟨other, hother, htie⟩ := h
      obtain ⟨stem, hname⟩ := s.dirs.isArchive_archive
      rw [Path.fileName?_congr (Path.compare_eq_iff.1 htie)] at hname
      exact ((hrest other).1 hother).2.2 ⟨stem, hname⟩
    rw [restSources, SortedSet.mem_insert_iff hfree, hrest, or_comm]
    simp

end Draft

/-! ### What a plan hands out -/

section Drafts
variable {ws : Workspace} {unit : SourceUnit} {toolchain : Toolchain} {draft : Draft}
  (hdraft : Draft.make ws unit toolchain = .ok draft)
include hdraft

theorem request_sources (hmode : CompileMode.decide unit toolchain ≠ .javaOnly) :
    (∃ run, runsOf .kotlin draft.steps = [.kotlinc run] ∧ run.sources = unit.sources.toList) ∧
      ∃ settings, Draft.settings ws unit toolchain (CompileMode.decide unit toolchain) = .ok settings ∧
        draft.request.input.sources = (Draft.restSources unit settings).toList := by
  rcases Draft.cases_of_make hdraft with ⟨hjava, -⟩ | ⟨-, settings, run, hsettings, hrun, rfl⟩
  · exact absurd hjava hmode
  · refine ⟨⟨run, ?_, Kotlinc.sources_of_run hrun⟩, settings, hsettings, rfl⟩
    rw [Draft.runsOf_around]
    rfl

theorem mem_request_sources_iff (hmode : CompileMode.decide unit toolchain ≠ .javaOnly) (source : Path) :
    source ∈ draft.request.input.sources ↔
      (source ∈ unit.sources ∧ ¬ source.IsKotlinFile ∧ ¬ source.IsArchive) ∨
        CompileMode.decide unit toolchain = .kotlinWithKapt ∧
          source = (Kapt.Directories.standard ws.roots unit.target).archive := by
  obtain ⟨-, settings, hsettings, hsources⟩ := request_sources hdraft hmode
  rw [hsources, SortedSet.mem_toList, Draft.mem_restSources_iff, Draft.exists_archive_iff hsettings]

theorem javac_of_request {javaSteps : List Step}
    (hjava : Javac.planner draft.request.target draft.request.options draft.request.input = .ok javaSteps) :
    ((∃ run, .javac run ∈ draft.steps ++ javaSteps) ↔ draft.request.input.sources ≠ []) ∧
      ∀ run, .javac run ∈ draft.steps ++ javaSteps → run.sources = draft.request.input.sources := by
  have hnone := runsOf_java_eq_nil_iff.1 (Draft.runsOf_java hdraft)
  have hmem : ∀ run, .javac run ∈ draft.steps ++ javaSteps ↔ .javac run ∈ javaSteps := by
    intro run
    rw [List.mem_append, or_iff_right (hnone run)]
  simp only [hmem]
  rcases Javac.planner_eq_ok hjava with ⟨hempty, rfl⟩ | ⟨hsources, run, rfl, hrun, -⟩
  · simp [hempty]
  · refine ⟨iff_of_true ⟨run, List.mem_singleton_self _⟩ hsources, fun other hother => ?_⟩
    obtain rfl := Step.javac.inj (List.mem_singleton.1 hother)
    exact hrun

end Drafts

/-- Exactly a unit with no Kotlin file and no archive is all for the Java compiler, and the Java pass is asked
for it as it is. Otherwise the one run of the Kotlin compiler is given all sources, and the Java pass those
that are neither, each of them once and in order; the archive of generated sources is with them where the
Kotlin compiler processes annotations and nowhere else, whatever archives the unit lists. The Java compiler
runs over just these sources, if there are any, and there are in that mode. -/
theorem sources_reach_compilers (ws : Workspace) (unit : SourceUnit) (toolchain : Toolchain) :
    (CompileMode.decide unit toolchain = .javaOnly ↔
      ∀ source ∈ unit.sources, ¬ source.IsKotlinFile ∧ ¬ source.IsArchive) ∧
    (CompileMode.decide unit toolchain = .javaOnly → ∃ draft, Draft.make ws unit toolchain = .ok draft ∧
      draft.request.input.sources = unit.sources.toList ∧
      draft.request.input.classpath = unit.classpath.toList) ∧
    (∀ draft, Draft.make ws unit toolchain = .ok draft → CompileMode.decide unit toolchain ≠ .javaOnly →
      (∃ run, runsOf .kotlin draft.steps = [.kotlinc run] ∧ run.sources = unit.sources.toList) ∧
      (draft.request.input.sources.Pairwise fun p q => compare p q = .lt) ∧
      (∀ source, source ∈ draft.request.input.sources ↔
        (source ∈ unit.sources ∧ ¬ source.IsKotlinFile ∧ ¬ source.IsArchive) ∨
          CompileMode.decide unit toolchain = .kotlinWithKapt ∧
            source = (Kapt.Directories.standard ws.roots unit.target).archive) ∧
      ((Kapt.Directories.standard ws.roots unit.target).archive ∈ draft.request.input.sources ↔
        CompileMode.decide unit toolchain = .kotlinWithKapt)) ∧
    ∀ plan, Plan.make ws unit toolchain Javac.planner = .ok plan → ∃ draft,
      Draft.make ws unit toolchain = .ok draft ∧
      ((∃ run, .javac run ∈ plan.steps.steps) ↔ draft.request.input.sources ≠ []) ∧
      (∀ run, .javac run ∈ plan.steps.steps → run.sources = draft.request.input.sources) ∧
      (CompileMode.decide unit toolchain = .kotlinWithKapt → draft.request.input.sources ≠ []) := by
  refine ⟨CompileMode.decide_eq_javaOnly_iff, fun hmode => ?_, fun draft hdraft hmode => ?_, fun plan hplan => ?_⟩
  · refine ⟨Draft.java unit toolchain, ?_, rfl, rfl⟩
    rw [Draft.make, hmode]
    rfl
  · obtain ⟨hkotlinc, settings, hsettings, hsources⟩ := request_sources hdraft hmode
    have hmem := mem_request_sources_iff hdraft hmode
    refine ⟨hkotlinc, ?_, hmem, ?_⟩
    · rw [hsources]
      exact (Draft.restSources unit settings).ascending
    · rw [hmem]
      simp [Kapt.Directories.isArchive_archive]
  · obtain ⟨draft, javaSteps, hdraft, hjava, rfl⟩ := Plan.make_eq_ok.1 hplan
    obtain ⟨hjavac, hrun⟩ := javac_of_request hdraft hjava
    refine ⟨draft, hdraft, hjavac, hrun, fun hkapt => ?_⟩
    have hmode : CompileMode.decide unit toolchain ≠ .javaOnly := by
      rw [hkapt]
      exact CompileMode.noConfusion
    exact List.ne_nil_of_mem ((mem_request_sources_iff hdraft hmode _).2 (.inr ⟨hkapt, rfl⟩))

/-- A unit that lists the archive of generated sources, in a spelling of its own, and another archive. -/
def archivesUnit : SourceUnit :=
  kaptUnit.withSources [⟨"out/gen//lib/__a_gen_sources__/generated.src.zip"⟩, ⟨"other.src.zip"⟩]

theorem archivesUnit_sources_reach_compilers :
    ∃ draft plan, Draft.make kaptWorkspace archivesUnit kaptToolchain = .ok draft ∧
      Plan.make kaptWorkspace archivesUnit kaptToolchain Javac.planner = .ok plan ∧
      (∃ run, runsOf .kotlin draft.steps = [.kotlinc run] ∧ run.sources = archivesUnit.sources.toList) ∧
      ⟨"B.java"⟩ ∈ draft.request.input.sources ∧ ⟨"A.kt"⟩ ∉ draft.request.input.sources ∧
      ⟨"other.src.zip"⟩ ∉ draft.request.input.sources ∧
      ⟨"out/gen/lib/__a_gen_sources__/generated.src.zip"⟩ ∈ draft.request.input.sources ∧
      ⟨"out/gen//lib/__a_gen_sources__/generated.src.zip"⟩ ∉ draft.request.input.sources ∧
      ∃ run, .javac run ∈ plan.steps.steps ∧ run.sources = draft.request.input.sources := by
  obtain ⟨-, -, hkotlin, hjava⟩ := sources_reach_compilers kaptWorkspace archivesUnit kaptToolchain
  have hkapt : CompileMode.decide archivesUnit kaptToolchain = .kotlinWithKapt := by decide +kernel
  obtain ⟨draft, plan, hdraft, hplan, -⟩ :=
    exists_plan_of_run kaptWorkspace archivesUnit kaptToolchain hkapt (by decide +kernel)
  obtain ⟨hkotlinc, -, hmem, -⟩ := hkotlin draft hdraft (by rw [hkapt]; exact CompileMode.noConfusion)
  obtain ⟨asked, hasked, hjavac, hsources, hsome⟩ := hjava plan hplan
  obtain rfl : draft = asked := Except.ok.inj (hdraft.symm.trans hasked)
  obtain ⟨run, hrun⟩ := hjavac.2 (hsome hkapt)
  have hnone : ∀ source : Path, source.isKotlinInput = true →
      source ≠ (Kapt.Directories.standard kaptWorkspace.roots archivesUnit.target).archive →
      source ∉ draft.request.input.sources := by
    intro source hinput hother
    rw [hmem, ← Path.isKotlinInput_eq_false_iff, hinput]
    simp [hother]
  refine ⟨draft, plan, hdraft, hplan, hkotlinc, ?_, ?_, ?_, ?_, ?_, run, hrun, hsources run hrun⟩
  · have hlisted : archivesUnit.sources.toList[1]? = some ⟨"B.java"⟩ := by decide +kernel
    refine (hmem _).2 (.inl ⟨List.mem_of_getElem? hlisted, ?_⟩)
    exact Path.isKotlinInput_eq_false_iff.1 (by decide +kernel)
  · exact hnone _ (by decide +kernel) (by decide +kernel)
  · exact hnone _ (by decide +kernel) (by decide +kernel)
  · exact (hmem _).2 (.inr ⟨hkapt, by decide +kernel⟩)
  · exact hnone _ (by decide +kernel) (by decide +kernel)

end JarPlan
