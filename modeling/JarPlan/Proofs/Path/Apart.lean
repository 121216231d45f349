import JarPlan.Proofs.Path.Relative
/-!
# Paths apart from each other

Two paths are apart when neither is the other or lies in it, which is so as soon as their components part at
a name. Names stay where they are when dots are worked out, and a `..` behind two names takes away either
both or neither, so a row of components that is put behind two different names gives results that part at
these names or are the same.
-/

namespace JarPlan.Path

/-- Neither path is the other or lies in it. -/
def Apart (p q : Path) : Prop := p.startsWith q = false ∧ q.startsWith p = false

instance (p q : Path) : Decidable (Apart p q) := inferInstanceAs (Decidable (_ ∧ _))

theorem Apart.symm {p q : Path} (h : Apart p q) : Apart q p := ⟨h.2, h.1⟩

/-! ### Components that part -/

/-- Two rows of components that are the same up to a place where they have different names. -/
def Part (row other : List Component) : Prop :=
  ∃ front first second rest rest', first ≠ second ∧
    row = front ++ .name first :: rest ∧ other = front ++ .name second :: rest'

namespace Part

variable {row other : List Component}

theorem symm (h : Part row other) : Part other row := by
  obtain ⟨front, first, second, rest, rest', hne, hrow, hother⟩ := h
  exact ⟨front, second, first, rest', rest, hne.symm, hother, hrow⟩

theorem not_isPrefix (h : Part row other) : ¬ row <+: other := by
  obtain ⟨front, first, second, rest, rest', hne, rfl, rfl⟩ := h
  intro hprefix
  have hnext := (List.cons_prefix_cons.1 ((List.prefix_append_right_inj front).1 hprefix)).1
  exact hne (Component.name.inj hnext)

/-- What follows the place where they part makes no difference. -/
theorem append (h : Part row other) (back back' : List Component) : Part (row ++ back) (other ++ back') := by
  obtain ⟨front, first, second, rest, rest', hne, rfl, rfl⟩ := h
  refine ⟨front, first, second, rest ++ back, rest' ++ back', hne, ?_, ?_⟩
  · rw [List.append_assoc, List.cons_append]
  · rw [List.append_assoc, List.cons_append]

/-- Rows that are the same or part already, each with a name behind it that the other has not. -/
theorem of_eq_or_part (h : row = other ∨ Part row other) {first second : String} (hne : first ≠ second)
    (rest rest' : List Component) : Part (row ++ .name first :: rest) (other ++ .name second :: rest') := by
  rcases h with rfl | h
  · exact ⟨row, first, second, rest, rest', hne, rfl, rfl⟩
  · exact h.append _ _

theorem apart {p q : Path} (h : Part p.components q.components) : Apart p q := by
  rw [Apart, ← Bool.not_eq_true, ← Bool.not_eq_true, startsWith_iff, startsWith_iff]
  exact ⟨h.symm.not_isPrefix, h.not_isPrefix⟩

end Part

/-! ### Resolving behind different names -/

/-- Two stacks that differ in one name differ in it still when a component is taken in, or they become the
same by losing it. -/
theorem resolveStep_fork (above below : List Component) (first second : String) (c : Component) :
    resolveStep (above ++ .name first :: below) c = resolveStep (above ++ .name second :: below) c ∨
      ∃ above', resolveStep (above ++ .name first :: below) c = above' ++ .name first :: below ∧
        resolveStep (above ++ .name second :: below) c = above' ++ .name second :: below := by
  cases c with
  | here => exact .inr ⟨above, rfl, rfl⟩
  | root => exact .inr ⟨.root :: above, rfl, rfl⟩
  | name text => exact .inr ⟨.name text :: above, rfl, rfl⟩
  | up =>
    match above with
    | [] => exact .inl rfl
    | .root :: above => exact .inr ⟨.root :: above, rfl, rfl⟩
    | .here :: above => exact .inr ⟨.up :: .here :: above, rfl, rfl⟩
    | .up :: above => exact .inr ⟨.up :: .up :: above, rfl, rfl⟩
    | .name text :: above => exact .inr ⟨above, rfl, rfl⟩

theorem foldl_resolveStep_fork (above below row : List Component) (first second : String) :
    row.foldl resolveStep (above ++ .name first :: below) =
        row.foldl resolveStep (above ++ .name second :: below) ∨
      ∃ above', row.foldl resolveStep (above ++ .name first :: below) = above' ++ .name first :: below ∧
        row.foldl resolveStep (above ++ .name second :: below) = above' ++ .name second :: below := by
  induction row generalizing above with
  | nil => exact .inr ⟨above, rfl, rfl⟩
  | cons c rest ih =>
    rw [List.foldl_cons, List.foldl_cons]
    rcases resolveStep_fork above below first second c with hsame | ⟨above', hfirst, hsecond⟩
    · exact .inl (congrArg (rest.foldl resolveStep ·) hsame)
    · rw [hfirst, hsecond]
      exact ih above'

/-- One row of components behind two names. -/
theorem resolve_eq_or_part (front row : List Component) (first second : String) :
    resolve (front ++ .name first :: row) = resolve (front ++ .name second :: row) ∨
      Part (resolve (front ++ .name first :: row)) (resolve (front ++ .name second :: row)) := by
  by_cases hne : first = second
  · exact .inl (by rw [hne])
  · have hpush (text : String) : resolve (front ++ .name text :: row) =
        (row.foldl resolveStep ([] ++ .name text :: front.foldl resolveStep [])).reverse := by
      rw [resolve, List.foldl_append, List.foldl_cons]
      rfl
    rw [hpush, hpush]
    rcases foldl_resolveStep_fork [] (front.foldl resolveStep []) row first second with
      hsame | ⟨above, hfirst, hsecond⟩
    · exact .inl (congrArg List.reverse hsame)
    · right
      refine ⟨(front.foldl resolveStep []).reverse, first, second, above.reverse, above.reverse, hne, ?_, ?_⟩
      · rw [hfirst, List.reverse_append, List.reverse_cons, List.append_assoc, List.singleton_append]
      · rw [hsecond, List.reverse_append, List.reverse_cons, List.append_assoc, List.singleton_append]

/-! ### Places -/

/-- What stands before the components of a path in its place: nothing, where it is absolute. -/
theorem exists_components_absolutize (root dir : Path) : ∃ front : List Component,
    ∀ p : Path, p.isAbsolute = dir.isAbsolute → (root.absolutize p).components = resolve (front ++ p.components) := by
  by_cases hdir : dir.isAbsolute = true
  · refine ⟨[], fun p hp => ?_⟩
    rw [absolutize_of_isAbsolute root (hp.trans hdir), components_normalize]
    rfl
  · rw [Bool.not_eq_true] at hdir
    exact ⟨root.components, fun p hp => components_absolutize root (hp.trans hdir)⟩

/-- A path below the root has its place, whether it is joined to the root before or not. -/
theorem absolutize_join {root : Path} (hroot : root.isAbsolute = true) (p : Path) :
    root.absolutize (root.join p) = root.absolutize p := by
  have habsolute : (root.join p).isAbsolute = true := by
    rw [← isAbsolute_normalize]
    exact isAbsolute_absolutize hroot p
  rw [absolutize_of_isAbsolute root habsolute, absolutize]

end JarPlan.Path
