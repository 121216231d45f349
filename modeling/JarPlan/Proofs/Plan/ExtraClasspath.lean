import JarPlan.Proofs.Classpath
import JarPlan.Proofs.Friends.Copies
import JarPlan.Proofs.Plan.Classpaths
import JarPlan.Proofs.Target.Names
/-!
# Entries given from outside, however they are written

A toolchain may give one jar in many spellings, more than once and in any order. Both classpaths of a plan
are sets of what becomes of the entries: for the Kotlin compiler the place of each, for the Java pass its
plain path without the root. Either is found from the plain path of an entry and is tidy, so the sets are the
same texts as soon as the plain paths are the same, and nothing else in a plan depends on these entries.
-/

namespace JarPlan

open JarPlan.Path

section Same
variable {extra extra' : List Path} (hsame : ∀ p, p ∈ extra.map normalize ↔ p ∈ extra'.map normalize)
include hsame

/-- What is found from plain paths alone. -/
theorem mem_map_iff_of_same {f : Path → Path} (hf : ∀ p, f p.normalize = f p) (q : Path) :
    q ∈ extra.map f ↔ q ∈ extra'.map f := by
  have hplain (l : List Path) : l.map f = (l.map normalize).map f := by
    rw [List.map_map]
    exact List.map_congr_left fun p _ => (hf p).symm
  rw [hplain extra, hplain extra', List.mem_map, List.mem_map]
  simp only [hsame]

/-! ### The two classpaths -/

theorem Classpath.compose_congr {root : Path} {copies : SortedMap Path Path}
    (htidy : ∀ p, (resolve root copies p).IsTidy) (declared runtime : SortedSet Path) :
    compose root extra declared runtime copies = compose root extra' declared runtime copies := by
  apply compose_eq_of_locations htidy
  intro location
  simp only [List.map_append, List.mem_append, mem_map_iff_of_same hsame (absolutize_normalize root)]

namespace Draft

variable {ws : Workspace} (hroot : ws.root.isAbsolute = true) (unit : SourceUnit) (toolchain : Toolchain)
include hroot

omit hsame in
theorem isTidy_of_mem_writtenEntries {p : Path} (hp : p ∈ writtenEntries ws.root unit toolchain) : p.IsTidy := by
  rcases List.mem_append.1 hp with hp | hp
  · obtain ⟨entry, -, rfl⟩ := List.mem_map.1 hp
    exact (isTidy_normalize entry).relativize hroot
  · obtain ⟨entry, -, rfl⟩ := List.mem_map.1 hp
    exact isTidy_normalize entry

omit hroot in
theorem mem_writtenEntries_iff (p : Path) :
    p ∈ writtenEntries ws.root unit { toolchain with extraClasspath := extra } ↔
      p ∈ writtenEntries ws.root unit { toolchain with extraClasspath := extra' } := by
  have hwritten := mem_map_iff_of_same hsame (f := fun p => ws.root.relativize p.normalize) fun p => by
    rw [normalize_normalize]
  rw [writtenEntries, writtenEntries, List.mem_append, List.mem_append, hwritten]

theorem restClasspath_congr : restClasspath ws.root unit { toolchain with extraClasspath := extra } =
    restClasspath ws.root unit { toolchain with extraClasspath := extra' } := by
  have hset (toolchain : Toolchain) : restClasspath ws.root unit toolchain =
      .collect ((writtenEntries ws.root unit toolchain).filter (· != unit.outputPaths.classesDir)) := rfl
  rw [hset, hset]
  apply SortedSet.collect_congr
  · intro p
    rw [List.mem_filter, List.mem_filter, mem_writtenEntries_iff hsame]
  · intro p hp q hq htie
    have hp := isTidy_of_mem_writtenEntries hroot _ _ (List.mem_filter.1 hp).1
    have hq := isTidy_of_mem_writtenEntries hroot _ _ (List.mem_filter.1 hq).1
    exact hp.eq_of_beq hq (compare_eq_iff.1 htie)

/-! ### Drafts -/

omit hsame hroot toolchain in
theorem getLast?_scratchPath :
    (ws.roots.scratchPath unit.target .friendJars).spelling.toList.getLast? = some '_' := by
  have hsegment : (unit.target.segment .friendJars).toList =
      "__".toList ++ unit.target.flavoredName.toList ++ "_friend_path_jars__".toList :=
    Target.toList_segment (by decide)
  apply getLast?_join
  show (unit.target.segment .friendJars).toList.getLast? = some '_'
  rw [hsegment, List.getLast?_append_of_ne_nil _ (by decide)]
  rfl

omit hsame hroot toolchain in
theorem spelling_scratchPath_ne : (ws.roots.scratchPath unit.target .friendJars).spelling ≠ "" := by
  intro hempty
  have hend : (ws.roots.scratchPath unit.target .friendJars).spelling.toList.getLast? = some '_' :=
    getLast?_scratchPath unit
  rw [hempty] at hend
  cases hend

variable (hplain : ws.root.normalize = ws.root)
  (hscratch : (ws.roots.scratchPath unit.target .friendJars).normalize =
    ws.roots.scratchPath unit.target .friendJars)
include hplain hscratch

omit hsame hroot in
theorem isTidy_place (p : Path) : (place ws unit toolchain p).IsTidy :=
  Friends.isTidy_resolve (isTidy_of_normalize_eq hplain) (isTidy_of_normalize_eq hscratch)
    (spelling_scratchPath_ne unit) _ p

omit hroot in
theorem run_congr (settings : Option Kapt.Settings) (generated : Path) :
    Kotlinc.run ws.root unit { toolchain with extraClasspath := extra } settings
        (friends ws unit toolchain) generated =
      Kotlinc.run ws.root unit { toolchain with extraClasspath := extra' } settings
        (friends ws unit toolchain) generated := by
  have hclasspath := Classpath.compose_congr hsame (isTidy_place unit toolchain hplain hscratch)
    unit.classpath toolchain.kotlinLibraries
  rw [Kotlinc.run, Kotlinc.run]
  dsimp only
  rw [hclasspath]
  rfl

theorem kotlin_congr (mode : CompileMode) : kotlin ws unit { toolchain with extraClasspath := extra } mode =
    kotlin ws unit { toolchain with extraClasspath := extra' } mode := by
  have hsettings : Draft.settings ws unit { toolchain with extraClasspath := extra } mode =
      Draft.settings ws unit { toolchain with extraClasspath := extra' } mode := by
    cases mode <;> rfl
  have hinput (settings : Option Kapt.Settings) :
      restInput ws.root unit { toolchain with extraClasspath := extra } settings =
        restInput ws.root unit { toolchain with extraClasspath := extra' } settings := by
    rw [restInput, restInput, restClasspath_congr hsame hroot]
  rw [kotlin, kotlin, hsettings]
  refine congrArg (Draft.settings ws unit { toolchain with extraClasspath := extra' } mode >>= ·) ?_
  funext settings
  have hrun := run_congr hsame unit toolchain hplain hscratch settings
    (ws.roots.annotationPath unit.target .pluginGenerated)
  simp only [hinput]
  exact congrArg (· >>= _) hrun

theorem make_congr : make ws unit { toolchain with extraClasspath := extra } =
    make ws unit { toolchain with extraClasspath := extra' } := by
  rw [make, make, kotlin_congr hsame hroot unit toolchain hplain hscratch]
  rfl

end Draft

end Same

/-- Entries with the same plain paths give the same plan, text by text, or the same error. -/
theorem plan_ignores_how_entries_are_written {ws : Workspace} {unit : SourceUnit} {extra extra' : List Path}
    (hroot : ws.root.isAbsolute = true) (hplain : ws.root.normalize = ws.root)
    (hscratch : (ws.roots.scratchPath unit.target .friendJars).normalize =
      ws.roots.scratchPath unit.target .friendJars)
    (hsame : ∀ p, p ∈ extra.map normalize ↔ p ∈ extra'.map normalize) (toolchain : Toolchain)
    (planner : JavaPlanner) :
    Plan.make ws unit { toolchain with extraClasspath := extra } planner =
      Plan.make ws unit { toolchain with extraClasspath := extra' } planner := by
  rw [Plan.make_eq, Plan.make_eq, Draft.make_congr hsame hroot unit toolchain hplain hscratch]

/-- A friend that has a copy, the place of the copy, and a jar outside of the root. -/
def stagedEntries : List Path :=
  [⟨"out/a,b.jar"⟩, ⟨"out/bin/lib/__a_friend_path_jars__/a__b.jar"⟩, ⟨"/opt/guava.jar"⟩]

/-- The same in another order, in other spellings and with one of them twice. -/
def respelledEntries : List Path :=
  [⟨"/opt//guava.jar"⟩, ⟨"./out//bin/lib/x/../__a_friend_path_jars__/a__b.jar/"⟩, ⟨"/opt/../opt/guava.jar"⟩,
    ⟨"out/./a,b.jar"⟩]

theorem kaptUnit_ignores_how_entries_are_written :
    ∃ plan, Plan.make kaptWorkspace kaptUnit { kaptToolchain with extraClasspath := stagedEntries }
        Javac.planner = .ok plan ∧
      Plan.make kaptWorkspace kaptUnit { kaptToolchain with extraClasspath := respelledEntries }
        Javac.planner = .ok plan := by
  obtain ⟨-, plan, -, hplan, -⟩ := exists_plan_of_run kaptWorkspace kaptUnit
    { kaptToolchain with extraClasspath := stagedEntries } (by decide +kernel) (by decide +kernel)
  have hsub : stagedEntries.map normalize ⊆ respelledEntries.map normalize := by decide +kernel
  have hsup : respelledEntries.map normalize ⊆ stagedEntries.map normalize := by decide +kernel
  have hsame : Plan.make kaptWorkspace kaptUnit { kaptToolchain with extraClasspath := stagedEntries }
      Javac.planner =
      Plan.make kaptWorkspace kaptUnit { kaptToolchain with extraClasspath := respelledEntries } Javac.planner :=
    plan_ignores_how_entries_are_written (by decide +kernel) (by decide +kernel) (by decide +kernel)
      (fun p => ⟨@hsub p, @hsup p⟩) kaptToolchain Javac.planner
  exact ⟨plan, hplan, hsame ▸ hplan⟩

end JarPlan
