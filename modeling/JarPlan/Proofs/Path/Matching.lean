import JarPlan.Proofs.Lists
import JarPlan.Proofs.Path.Normal
import JarPlan.Proofs.Sorted.Set
/-!
# Lists and sets of paths that match

Lists of paths match when their paths do, one after the other. Sets of paths match already when a path has a
match in both or in none: they are ascending, so nothing is left of the order in which they were filled, and the
spellings that were kept make no difference.
-/

namespace JarPlan

instance : ReflBEq Path where
  rfl := Path.beq_iff.2 rfl

namespace Path

variable {l l' : List Path}

/-- The lists hold matching paths, in any order and number. -/
def SameUpToMatch (l l' : List Path) : Prop :=
  ∀ p : Path, (∃ q ∈ l, (p == q) = true) ↔ ∃ q ∈ l', (p == q) = true

theorem sameUpToMatch_of_beq (h : (l == l') = true) : SameUpToMatch l l' := by
  intro p
  rw [← List.any_eq_true, ← List.any_eq_true, any_eq_of_beq h]
  intro q r hmatch
  rw [Bool.eq_iff_iff, beq_iff, beq_iff, beq_iff.1 hmatch]

theorem SameUpToMatch.exists_tie_iff (h : SameUpToMatch l l') (p : Path) :
    (∃ q ∈ l, compare p q = .eq) ↔ ∃ q ∈ l', compare p q = .eq := by
  simp only [compare_eq_iff]
  exact h p

end Path

namespace SortedSet

open JarPlan.Path (SameUpToMatch)

variable {s t : SortedSet Path} {l l' : List Path}

/-- The components of the paths in a set, in the order of the paths. -/
def rows (s : SortedSet Path) : SortedSet (List Component) :=
  ⟨s.toList.map Path.components, List.pairwise_map.2 s.ascending⟩

theorem beq_of_rows_eq (h : s.rows = t.rows) : (s == t) = true := by
  have hlists : List.Forall₂ Eq (s.toList.map Path.components) (t.toList.map Path.components) := by
    rw [List.forall₂_eq_eq_eq]
    exact congrArg toList h
  rw [List.forall₂_map_left_iff, List.forall₂_map_right_iff] at hlists
  exact beq_iff_forall₂.2 (hlists.imp fun _ _ => Path.beq_iff.2)

theorem rows_subset (h : SameUpToMatch s.toList t.toList) {row : List Component} (hrow : row ∈ s.rows) :
    row ∈ t.rows := by
  obtain ⟨p, hp, rfl⟩ := List.mem_map.1 hrow
  obtain ⟨q, hq, hmatch⟩ := (h p).1 ⟨p, hp, beq_self_eq_true p⟩
  exact List.mem_map.2 ⟨q, hq, (Path.beq_iff.1 hmatch).symm⟩

/-- Ascending lists that hold matching paths match path by path. -/
theorem beq_iff : (s == t) = true ↔ SameUpToMatch s.toList t.toList :=
  ⟨Path.sameUpToMatch_of_beq, fun h =>
    beq_of_rows_eq (eq_of_mem_iff fun _ => ⟨rows_subset h, rows_subset fun p => (h p).symm⟩)⟩

theorem beq_iff_contains : (s == t) = true ↔ ∀ p, s.contains p = true ↔ t.contains p = true := by
  simp only [beq_iff, SameUpToMatch, contains_iff, Path.compare_eq_iff, mem_toList]

theorem collect_beq_collect (h : SameUpToMatch l l') : (collect l == collect l') = true := by
  rw [beq_iff_contains]
  intro p
  rw [contains_collect, contains_collect, h.exists_tie_iff]

theorem insert_beq_insert (h : (s == t) = true) (p : Path) : (s.insert p == t.insert p) = true := by
  rw [beq_iff_contains] at h ⊢
  intro q
  rw [contains_insert, contains_insert, h]

theorem insertAll_beq_insertAll (h : (s == t) = true) (hl : SameUpToMatch l l') :
    (s.insertAll l == t.insertAll l') = true := by
  rw [beq_iff_contains] at h ⊢
  intro p
  rw [insertAll, insertAll, contains_foldl fun _ _ => contains_insert, contains_foldl fun _ _ => contains_insert, h,
    hl.exists_tie_iff]

end SortedSet

end JarPlan
