import JarPlan.Classpath
import JarPlan.Proofs.Path.Tidy
import JarPlan.Proofs.Sorted.Map
import JarPlan.Proofs.Sorted.Set
/-!
# What a classpath holds

An entry is resolved to its location, and a table may have another path for this location. What stands for the
entry is then found from the location alone. Locations are plain, and where the paths of the table are plain too,
two that match are one text, so none of them is lost when they are put in order, and the classpath is given by the
set of locations: neither the group nor the order of the entries, their number or their spelling show in it.
-/

namespace JarPlan.Classpath

variable {root : Path} {copies : SortedMap Path Path}

/-- The path that the table has for a location, or the location itself where it has none. -/
def StandsFor (copies : SortedMap Path Path) (location p : Path) : Prop :=
  (∃ e ∈ copies.entries, (location == e.1) = true ∧ e.2 = p) ∨
    (∀ e ∈ copies.entries, (location == e.1) = false) ∧ p = location

theorem get?_eq_none_iff {location : Path} :
    copies.get? location = none ↔ ∀ e ∈ copies.entries, (location == e.1) = false := by
  rw [Option.eq_none_iff_forall_ne_some]
  simp only [ne_eq, SortedMap.get?_eq_some_iff, Path.compare_eq_iff, not_exists, not_and, ← Bool.not_eq_true]
  exact ⟨fun h e he hmatch => h e.2 e he hmatch rfl, fun h p e he hmatch _ => h e he hmatch⟩

theorem standsFor_iff {entry p : Path} :
    StandsFor copies (root.absolutize entry) p ↔ p = resolve root copies entry := by
  rw [StandsFor, ← get?_eq_none_iff, resolve]
  cases hget : copies.get? (root.absolutize entry) with
  | none =>
    have hmiss := get?_eq_none_iff.1 hget
    rw [Option.getD_none, and_iff_right rfl, or_iff_right]
    rintro ⟨e, he, hmatch, -⟩
    rw [hmiss e he] at hmatch
    cases hmatch
  | some copy =>
    obtain ⟨e, he, htie, rfl⟩ := SortedMap.get?_eq_some_iff.1 hget
    have hsome : ¬ (some e.2 = none ∧ p = root.absolutize entry) := fun h => Option.some_ne_none _ h.1
    rw [Option.getD_some, or_iff_left hsome]
    constructor
    · rintro ⟨e', he', hmatch, rfl⟩
      rw [SortedMap.eq_of_mem_entries he' he]
      exact Std.TransCmp.eq_trans (Std.OrientedCmp.eq_symm (Path.compare_eq_iff.2 hmatch)) htie
    · rintro rfl
      exact ⟨e, he, Path.compare_eq_iff.1 htie, rfl⟩

/-! ### Tidy paths -/

section Tidy
variable (htidy : ∀ p, (resolve root copies p).IsTidy)
include htidy

theorem eq_of_tie_of_mem_map {entries : List Path} : ∀ p ∈ entries.map (resolve root copies),
    ∀ q ∈ entries.map (resolve root copies), compare p q = .eq → p = q := by
  intro p hp q hq htie
  obtain ⟨entry, -, rfl⟩ := List.mem_map.1 hp
  obtain ⟨other, -, rfl⟩ := List.mem_map.1 hq
  exact (htidy entry).eq_of_beq (htidy other) (Path.compare_eq_iff.1 htie)

theorem mem_compose_iff (extra : List Path) (declared runtime : SortedSet Path) (p : Path) :
    p ∈ compose root extra declared runtime copies ↔
      ∃ entry ∈ extra ++ declared.toList ++ runtime.toList, p = resolve root copies entry := by
  rw [compose, SortedSet.mem_collect_iff (eq_of_tie_of_mem_map htidy), List.mem_map]
  simp only [eq_comm]

/-- Entries at the same locations make the same classpath. -/
theorem compose_eq_of_locations {extra extra' : List Path} {declared declared' runtime runtime' : SortedSet Path}
    (hsame : ∀ location, location ∈ (extra ++ declared.toList ++ runtime.toList).map root.absolutize ↔
      location ∈ (extra' ++ declared'.toList ++ runtime'.toList).map root.absolutize) :
    compose root extra declared runtime copies = compose root extra' declared' runtime' copies := by
  have hlocations (entries : List Path) : entries.map (resolve root copies) =
      (entries.map root.absolutize).map fun location => (copies.get? location).getD location := by
    rw [List.map_map]
    rfl
  refine SortedSet.collect_congr (fun p => ?_) (eq_of_tie_of_mem_map htidy)
  rw [hlocations, hlocations, List.mem_map, List.mem_map]
  simp only [hsame]

end Tidy

section Plain
variable (hplain : ∀ e ∈ copies.entries, e.2.normalize = e.2)
include hplain

theorem normalize_resolve (p : Path) : (resolve root copies p).normalize = resolve root copies p := by
  rw [resolve]
  cases hget : copies.get? (root.absolutize p) with
  | none => rw [Option.getD_none, Path.normalize_absolutize]
  | some copy =>
    obtain ⟨e, he, -, rfl⟩ := SortedMap.get?_eq_some_iff.1 hget
    exact hplain e he

/-- Where the paths of the table are plain, the classpath holds, in strictly ascending order, what stands for the
locations of the entries and nothing else. No entry is lost, and groups with the same locations make the same
classpath, text by text. -/
theorem compose_holds_what_stands_for_entries (root : Path) (extra : List Path)
    (declared runtime : SortedSet Path) :
    Ascending compare (compose root extra declared runtime copies).toList ∧
    (∀ p, p ∈ compose root extra declared runtime copies ↔
      ∃ entry ∈ extra ++ declared.toList ++ runtime.toList, StandsFor copies (root.absolutize entry) p) ∧
    (∀ entry ∈ extra ++ declared.toList ++ runtime.toList,
      ∃ p ∈ compose root extra declared runtime copies, StandsFor copies (root.absolutize entry) p) ∧
    ∀ (extra' : List Path) (declared' runtime' : SortedSet Path),
      (∀ location, location ∈ (extra' ++ declared'.toList ++ runtime'.toList).map root.absolutize ↔
        location ∈ (extra ++ declared.toList ++ runtime.toList).map root.absolutize) →
      compose root extra' declared' runtime' copies = compose root extra declared runtime copies := by
  have htidy (p : Path) : (resolve root copies p).IsTidy :=
    Path.isTidy_of_normalize_eq (normalize_resolve hplain p)
  simp only [standsFor_iff]
  refine ⟨SortedSet.ascending _, mem_compose_iff htidy extra declared runtime, fun entry hentry => ?_,
    fun extra' declared' runtime' hsame => compose_eq_of_locations htidy hsame⟩
  exact ⟨resolve root copies entry, (mem_compose_iff htidy extra declared runtime _).2 ⟨entry, hentry, rfl⟩, rfl⟩

end Plain

/-- A table with one copy. -/
def oneCopy : SortedMap Path Path where
  entries := [(⟨"/repo/a,b.jar"⟩, ⟨"/repo/out/a__b.jar"⟩)]
  ascending := List.pairwise_singleton _ _

/-- Two jars, one of which has a copy and is given twice. -/
def threeEntries : List Path := [⟨"/repo/./a,b.jar"⟩, ⟨"lib/b.jar"⟩, ⟨"x/../a,b.jar"⟩]

/-- It makes no difference that they are given in other groups, once, and spelled in another way. -/
theorem compose_threeEntries :
    ⟨"/repo/out/a__b.jar"⟩ ∈ compose ⟨"/repo"⟩ threeEntries ∅ ∅ oneCopy ∧
      compose ⟨"/repo"⟩ [] (.ofList [⟨"a,b.jar"⟩]) (.ofList [⟨"/repo/lib/b.jar"⟩]) oneCopy =
        compose ⟨"/repo"⟩ threeEntries ∅ ∅ oneCopy := by
  have hplain : ∀ e ∈ oneCopy.entries, e.2.normalize = e.2 := by decide +kernel
  obtain ⟨-, hmem, -, hsame⟩ := compose_holds_what_stands_for_entries hplain ⟨"/repo"⟩ threeEntries ∅ ∅
  constructor
  · refine (hmem _).2 ⟨⟨"/repo/./a,b.jar"⟩, List.mem_cons_self, .inl ?_⟩
    have hmatch : (Path.absolutize ⟨"/repo"⟩ ⟨"/repo/./a,b.jar"⟩ == ⟨"/repo/a,b.jar"⟩) = true := by decide +kernel
    exact ⟨(⟨"/repo/a,b.jar"⟩, ⟨"/repo/out/a__b.jar"⟩), List.mem_singleton_self _, hmatch, rfl⟩
  · have hthree : (threeEntries ++ [] ++ []).map (Path.absolutize ⟨"/repo"⟩) =
        [⟨"/repo/a,b.jar"⟩, ⟨"/repo/lib/b.jar"⟩, ⟨"/repo/a,b.jar"⟩] := by decide +kernel
    have htwo : [⟨"a,b.jar"⟩, ⟨"/repo/lib/b.jar"⟩].map (Path.absolutize ⟨"/repo"⟩) =
        [⟨"/repo/a,b.jar"⟩, ⟨"/repo/lib/b.jar"⟩] := by decide +kernel
    refine hsame _ _ _ fun location => ?_
    change location ∈ [Path.mk "a,b.jar", ⟨"/repo/lib/b.jar"⟩].map (Path.absolutize ⟨"/repo"⟩) ↔
      location ∈ (threeEntries ++ [] ++ []).map (Path.absolutize ⟨"/repo"⟩)
    rw [hthree, htwo]
    simp only [List.mem_cons, List.not_mem_nil, or_false]
    rw [or_comm (a := location = ⟨"/repo/lib/b.jar"⟩), or_self_left]

end JarPlan.Classpath
