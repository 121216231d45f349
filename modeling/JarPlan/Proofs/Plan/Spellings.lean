import Mathlib.Data.List.Nodup
import JarPlan.Proofs.Plan.Classpaths
/-!
# Jars that are listed twice

The classpath of the Java pass is freed of entries that match, in the form in which they are written: what
is given from outside is written relative to the root where it lies below it, what is declared is only
made plain, and the compiled classes stand as they are spelled. So a jar is listed twice when two of these
forms lie at one place and do not match, and in no other case. There are no two such forms when each is
settled.
-/

namespace JarPlan

namespace Draft

variable {unit : SourceUnit} {toolchain : Toolchain} {root : Path}

/-! ### Entries that match -/

theorem exists_mem_classpath_of_written {p : Path}
    (h : p ∈ unit.outputPaths.classesDir :: writtenEntries root unit toolchain) :
    ∃ q ∈ unit.outputPaths.classesDir :: (restClasspath root unit toolchain).toList, (p == q) = true := by
  rcases List.mem_cons.1 h with rfl | h
  · exact ⟨_, List.mem_cons_self, Path.beq_iff.2 rfl⟩
  · exact exists_mem_restClasspath h

theorem written_of_mem_classpath {p : Path}
    (h : p ∈ unit.outputPaths.classesDir :: (restClasspath root unit toolchain).toList) :
    p ∈ unit.outputPaths.classesDir :: writtenEntries root unit toolchain := by
  rcases List.mem_cons.1 h with rfl | h
  · exact List.mem_cons_self
  · exact List.mem_cons_of_mem _ (mem_restClasspath h).1

theorem pairwise_beq_eq_false :
    (unit.outputPaths.classesDir :: (restClasspath root unit toolchain).toList).Pairwise
      fun p q => (p == q) = false := by
  rw [List.pairwise_cons]
  constructor
  · intro p hp
    rw [← Bool.not_eq_true, Path.beq_iff]
    intro hmatch
    have hne := (mem_restClasspath hp).2
    rw [Path.beq_iff.2 hmatch.symm] at hne
    cases hne
  · refine (restClasspath root unit toolchain).ascending.imp fun {p q} hlt => ?_
    rw [← Bool.not_eq_true, ← Path.compare_eq_iff, hlt]
    exact Ordering.noConfusion

/-- An entry is listed twice when it is written in two forms that do not match. -/
theorem nodup_locations_iff :
    ((unit.outputPaths.classesDir :: (restClasspath root unit toolchain).toList).map root.absolutize).Nodup ↔
      ∀ p ∈ unit.outputPaths.classesDir :: writtenEntries root unit toolchain,
        ∀ q ∈ unit.outputPaths.classesDir :: writtenEntries root unit toolchain,
          root.absolutize p = root.absolutize q → (p == q) = true := by
  constructor
  · intro hnodup p hp q hq hsame
    obtain ⟨p', hp', hmatchp⟩ := exists_mem_classpath_of_written hp
    obtain ⟨q', hq', hmatchq⟩ := exists_mem_classpath_of_written hq
    rw [Path.absolutize_congr root hmatchp, Path.absolutize_congr root hmatchq] at hsame
    obtain rfl := List.inj_on_of_nodup_map hnodup hp' hq' hsame
    exact Path.beq_iff.2 ((Path.beq_iff.1 hmatchp).trans (Path.beq_iff.1 hmatchq).symm)
  · intro h
    rw [List.Nodup, List.pairwise_map]
    refine pairwise_beq_eq_false.imp_of_mem fun {p q} hp hq hne hsame => ?_
    rw [h p (written_of_mem_classpath hp) q (written_of_mem_classpath hq) hsame] at hne
    cases hne

/-! ### Settled entries -/

/-- An entry given from outside may be absolute or stay below the root; a declared one that is absolute has
to lie outside. -/
theorem isSettled_of_mem_writtenEntries (hroot : root.isAbsolute = true) (hplain : (root.normalize == root) = true)
    (hextra : ∀ p ∈ toolchain.extraClasspath, p.isAbsolute = true ∨ .up ∉ p.normalize.components)
    (hdeclared : ∀ p ∈ unit.classpath, if p.isAbsolute then p.normalize.startsWith root = false
      else .up ∉ p.normalize.components) {p : Path} (hp : p ∈ writtenEntries root unit toolchain) :
    Path.IsSettled root p := by
  rcases List.mem_append.1 hp with hp | hp
  · obtain ⟨entry, hentry, rfl⟩ := List.mem_map.1 hp
    by_cases habsolute : entry.isAbsolute = true
    · exact Path.isSettled_relativize hroot habsolute
    · have hrelative := Bool.eq_false_iff.2 habsolute
      have hout := Path.startsWith_eq_false_of_isAbsolute_eq_false hroot
        ((Path.isAbsolute_normalize entry).trans hrelative)
      rw [Path.relativize_of_not_startsWith hout]
      exact Path.isSettled_normalize hroot hplain hrelative ((hextra entry hentry).resolve_left habsolute)
  · obtain ⟨entry, hentry, rfl⟩ := List.mem_map.1 hp
    have hform := hdeclared entry hentry
    by_cases habsolute : entry.isAbsolute = true
    · rw [if_pos habsolute] at hform
      exact Path.isSettled_normalize_of_isAbsolute hroot habsolute hform
    · rw [if_neg habsolute] at hform
      exact Path.isSettled_normalize hroot hplain (Bool.eq_false_iff.2 habsolute) hform

end Draft

open Draft in
/-- No two entries of the Java pass lie at one place exactly when all that are written for one place match.
They match when each is settled. An entry given from outside is, unless it climbs out of the root. A declared
one is, unless it climbs out or is an absolute path below the root. The compiled classes are when they are
spelled so. -/
theorem java_classpath_nodup_iff {ws : Workspace} {unit : SourceUnit} {toolchain : Toolchain} {draft : Draft}
    (hroot : ws.root.isAbsolute = true) (hplain : (ws.root.normalize == ws.root) = true)
    (hdraft : Draft.make ws unit toolchain = .ok draft) (hmode : draft.mode.runsKotlinc = true) :
    (∀ planner, Plan.make ws unit toolchain planner =
      (planner draft.request.target draft.request.options draft.request.input).map (draft.complete unit)) ∧
    ((draft.request.input.classpath.map ws.root.absolutize).Nodup ↔
      ∀ p ∈ unit.outputPaths.classesDir :: writtenEntries ws.root unit toolchain,
        ∀ q ∈ unit.outputPaths.classesDir :: writtenEntries ws.root unit toolchain,
          ws.root.absolutize p = ws.root.absolutize q → (p == q) = true) ∧
    (Path.IsSettled ws.root unit.outputPaths.classesDir →
      (∀ p ∈ toolchain.extraClasspath, p.isAbsolute = true ∨ .up ∉ p.normalize.components) →
      (∀ p ∈ unit.classpath, if p.isAbsolute then p.normalize.startsWith ws.root = false
        else .up ∉ p.normalize.components) →
      (draft.request.input.classpath.map ws.root.absolutize).Nodup) := by
  rw [classpath_of_make hdraft hmode, nodup_locations_iff]
  refine ⟨plan_of_make hdraft, Iff.rfl, fun hclasses hextra hdeclared p hp q hq hsame => ?_⟩
  have hsettled : ∀ p ∈ unit.outputPaths.classesDir :: writtenEntries ws.root unit toolchain,
      Path.IsSettled ws.root p :=
    List.forall_mem_cons.2 ⟨hclasses, fun _ => isSettled_of_mem_writtenEntries hroot hplain hextra hdeclared⟩
  exact (hsettled p hp).beq_of_absolutize_eq (hsettled q hq) hsame

/-- A unit that declares a jar, which the toolchain gives too. -/
def guavaUnit (jar : Path) : SourceUnit := kaptUnit.withClasspath [jar]

def guavaToolchain : Toolchain := { kaptToolchain with extraClasspath := [⟨"/r/guava.jar"⟩] }

/-- A workspace that spells its output root with a dot. -/
def dottedRepository : Workspace where
  root := ⟨"/repo"⟩
  roots := .below ⟨"./buck-out"⟩

/-- A unit that declares its own compiled classes, without the dot. -/
def ownClassesUnit : SourceUnit :=
  ((SourceUnit.standard ⟨"java/com/foo", "lib", ∅⟩ dottedRepository.roots).withSources
    [⟨"A.kt"⟩, ⟨"B.java"⟩]).withClasspath
      [⟨"buck-out/bin/java/com/foo/lib__lib__classes"⟩, ⟨"third-party/guava.jar"⟩]

theorem guava_listed_once_or_twice :
    (∃ draft, Draft.make kaptWorkspace (guavaUnit ⟨"guava.jar"⟩) guavaToolchain = .ok draft ∧
      (draft.request.input.classpath.map kaptWorkspace.root.absolutize).Nodup) ∧
    (∃ draft, Draft.make kaptWorkspace (guavaUnit ⟨"/r/guava.jar"⟩) guavaToolchain = .ok draft ∧
      ¬ (draft.request.input.classpath.map kaptWorkspace.root.absolutize).Nodup) ∧
    ∃ draft, Draft.make dottedRepository ownClassesUnit {} = .ok draft ∧
      ¬ (draft.request.input.classpath.map dottedRepository.root.absolutize).Nodup := by
  obtain ⟨one, hone, honeMode⟩ := exists_draft_of_run kaptWorkspace (guavaUnit ⟨"guava.jar"⟩) guavaToolchain
    (by decide +kernel) (by decide +kernel)
  obtain ⟨two, htwo, htwoMode⟩ := exists_draft_of_run kaptWorkspace (guavaUnit ⟨"/r/guava.jar"⟩) guavaToolchain
    (by decide +kernel) (by decide +kernel)
  obtain ⟨own, hown, hownMode⟩ := exists_ok_of_any (x := Draft.make dottedRepository ownClassesUnit {})
    (p := fun draft => draft.mode.runsKotlinc) (by decide +kernel)
  refine ⟨⟨one, hone, ?_⟩, ⟨two, htwo, fun hnodup => ?_⟩, own, hown, fun hnodup => ?_⟩
  · obtain ⟨-, -, hsettled⟩ := java_classpath_nodup_iff (by decide +kernel) (by decide +kernel) hone honeMode
    refine hsettled (by decide +kernel) (fun p hp => ?_) fun p hp => ?_
    · obtain rfl : p = ⟨"/r/guava.jar"⟩ := List.mem_singleton.1 hp
      exact .inl (by decide +kernel)
    · obtain rfl : p = ⟨"guava.jar"⟩ := List.mem_singleton.1 hp
      decide +kernel
  · obtain ⟨-, hiff, -⟩ := java_classpath_nodup_iff (by decide +kernel) (by decide +kernel) htwo htwoMode
    -- taken off the root the jar is `guava.jar`, and declared it is `/r/guava.jar`
    have hmatch := hiff.1 hnodup _ (.tail _ (.head _)) _ (.tail _ (.tail _ (.head _))) (by decide +kernel)
    exact absurd hmatch (by decide +kernel)
  · obtain ⟨-, hiff, -⟩ := java_classpath_nodup_iff (by decide +kernel) (by decide +kernel) hown hownMode
    -- the compiled classes come first, with the dot, and again as the first declared entry
    have hmatch := hiff.1 hnodup _ (.head _) _ (.tail _ (.head _)) (by decide +kernel)
    exact absurd hmatch (by decide +kernel)

end JarPlan
