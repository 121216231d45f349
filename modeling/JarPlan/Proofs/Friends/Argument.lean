import Mathlib.Data.List.Nodup
import Mathlib.Data.List.Perm.Basic
import JarPlan.Friends
import JarPlan.Proofs.Sorted.Set
import JarPlan.Proofs.Text.Pieces
/-!
# What the compiler reads of its friends

The friends are kept in the order of paths and named in the order of their texts. Paths that differ are different
texts, so none of them gets lost on the way. The compiler cuts the list at its commas, and where no path holds
one it reads the very texts that were named. So the argument tells which paths are in the set, with their
spelling, and the empty argument tells that there are none.
-/

namespace JarPlan.Friends

/-! ### The texts that are named -/

/-- The texts of a set of paths, in the order in which they are named. -/
def spellings (paths : SortedSet Path) : SortedSet String := .ofList (paths.toList.map Path.spelling)

theorem mem_spellings_iff {paths : SortedSet Path} {s : String} :
    s ∈ spellings paths ↔ s ∈ paths.toList.map Path.spelling :=
  SortedSet.mem_ofList_iff fun _ _ _ _ htie => Std.LawfulEqOrd.eq_of_compare htie

theorem spelling_mem_spellings_iff {paths : SortedSet Path} {p : Path} : p.spelling ∈ spellings paths ↔ p ∈ paths := by
  have hinjective : Function.Injective Path.spelling := fun _ _ h => congrArg Path.mk h
  rw [mem_spellings_iff, List.mem_map_of_injective hinjective, SortedSet.mem_toList]

theorem pairwise_spellings (paths : SortedSet Path) : (spellings paths).toList.Pairwise (· < ·) :=
  (spellings paths).ascending.imp fun hlt => compareOfLessAndEq_eq_lt.1 hlt

/-- No text comes in or gets lost. -/
theorem perm_spellings (paths : SortedSet Path) : (spellings paths).toList.Perm (paths.toList.map Path.spelling) := by
  have hnodup : (paths.toList.map Path.spelling).Nodup :=
    paths.nodup_toList.map fun _ _ h => congrArg Path.mk h
  rw [List.perm_ext_iff_of_nodup (spellings paths).nodup_toList hnodup]
  exact fun s => mem_spellings_iff

/-! ### The argument -/

theorem argument_eq_of_ne {paths : SortedSet Path} (h : paths ≠ ∅) :
    argument paths = "-Xfriend-paths=" ++ ",".intercalate (spellings paths).toList := by
  have hne : ¬ paths.isEmpty = true := fun hempty => h (SortedSet.ext (List.isEmpty_iff.1 hempty))
  rw [argument, if_neg hne, spellings]

theorem argument_eq_empty_iff {paths : SortedSet Path} : argument paths = "" ↔ paths = ∅ := by
  constructor
  · intro h
    by_contra hne
    rw [argument_eq_of_ne hne, String.append_eq_empty_iff] at h
    exact absurd h.1 (by decide)
  · rintro rfl
    rfl

section CommaFree
variable {paths : SortedSet Path} (h : ∀ p ∈ paths, ',' ∉ p.spelling.toList)
include h

/-- The compiler reads the texts that were named. -/
theorem cutAt_intercalate_spellings (hne : paths ≠ ∅) :
    Text.cutAt ',' (",".intercalate (spellings paths).toList) = (spellings paths).toList := by
  have hspellings : (spellings paths).toList ≠ [] := by
    intro hempty
    apply hne
    apply SortedSet.eq_of_mem_iff
    intro p
    rw [← spelling_mem_spellings_iff, ← SortedSet.mem_toList, hempty]
    exact iff_of_false List.not_mem_nil List.not_mem_nil
  rw [Text.cutAt_intercalate_iff rfl hspellings]
  intro s hs
  obtain ⟨p, hp, rfl⟩ := List.mem_map.1 (mem_spellings_iff.1 hs)
  exact h p hp

/-- Where no path holds a comma, the argument is empty exactly when there are no paths. Otherwise it is the flag and
a list from which the compiler reads the text of every path once, in strictly ascending order of texts, and no other
argument of such paths is the same. -/
theorem argument_lists_spellings :
    (argument paths = "" ↔ paths = ∅) ∧
    (paths ≠ ∅ → ∃ list : String, argument paths = "-Xfriend-paths=" ++ list ∧
      (Text.cutAt ',' list).Pairwise (· < ·) ∧ (Text.cutAt ',' list).Perm (paths.toList.map Path.spelling)) ∧
    ∀ others : SortedSet Path, (∀ p ∈ others, ',' ∉ p.spelling.toList) →
      argument paths = argument others → paths = others := by
  refine ⟨argument_eq_empty_iff, fun hne => ⟨_, argument_eq_of_ne hne, ?_, ?_⟩, fun others hothers hsame => ?_⟩
  · rw [cutAt_intercalate_spellings h hne]
    exact pairwise_spellings paths
  · rw [cutAt_intercalate_spellings h hne]
    exact perm_spellings paths
  · by_cases hne : paths = ∅
    · rw [hne, argument_eq_empty_iff.2 rfl, eq_comm, argument_eq_empty_iff] at hsame
      rw [hne, hsame]
    · have hne' : others ≠ ∅ := by
        rwa [ne_eq, ← argument_eq_empty_iff, ← hsame, argument_eq_empty_iff]
      rw [argument_eq_of_ne hne, argument_eq_of_ne hne', String.append_right_inj] at hsame
      have hlists : (spellings paths).toList = (spellings others).toList := by
        rw [← cutAt_intercalate_spellings h hne, hsame, cutAt_intercalate_spellings hothers hne']
      apply SortedSet.eq_of_mem_iff
      intro p
      rw [← spelling_mem_spellings_iff, ← SortedSet.mem_toList, hlists, SortedSet.mem_toList,
        spelling_mem_spellings_iff]

end CommaFree

/-- Two jars in the order of paths; as texts they stand the other way round. -/
def neighbours : SortedSet Path := .ofList [⟨"lib/a.jar"⟩, ⟨"lib-b.jar"⟩]

theorem neighbours_listed_as_texts :
    argument neighbours ≠ "" ∧
    (∃ list : String, argument neighbours = "-Xfriend-paths=" ++ list ∧
      (Text.cutAt ',' list).Pairwise (· < ·) ∧ (Text.cutAt ',' list).Perm ["lib/a.jar", "lib-b.jar"]) ∧
    argument neighbours ≠ argument (.ofList [⟨"lib/a.jar"⟩, ⟨"./lib-b.jar"⟩]) := by
  have hpaths : neighbours.toList = [⟨"lib/a.jar"⟩, ⟨"lib-b.jar"⟩] := by decide +kernel
  have hne : neighbours ≠ ∅ := by decide +kernel
  have hfree : ∀ p ∈ neighbours.toList, ',' ∉ p.spelling.toList := by decide +kernel
  have hdotted : ∀ p ∈ (SortedSet.ofList [Path.mk "lib/a.jar", ⟨"./lib-b.jar"⟩]).toList, ',' ∉ p.spelling.toList := by
    decide +kernel
  obtain ⟨hempty, hlist, hsame⟩ := argument_lists_spellings hfree
  rw [hpaths] at hlist
  refine ⟨mt hempty.1 hne, hlist hne, fun h => ?_⟩
  have hneighbours := hsame _ hdotted h
  exact absurd hneighbours (by decide +kernel)

example : argument neighbours = "-Xfriend-paths=lib-b.jar,lib/a.jar" := by decide +kernel

end JarPlan.Friends
