import JarPlan.Proofs.Friends.Places
import JarPlan.Proofs.Path.Cut
/-!
# Separators in the paths to name

A copy has a name without separators, but its directory is spelled from the scratch directory, behind the
root where it is relative, and only the last segment is rewritten. So the paths to name are free of
separators when no friend needs a copy, or when the rest of that spelling is free of them, and in no other
case.
-/

namespace JarPlan.Friends

/-! ### The directory for copies -/

/-- The scratch directory with its name rewritten, or as it is, where it ends in no name. -/
theorem stagingDir_cases (dir : Path) :
    (∃ (parent : Path) (name : String), dir.components = parent.components ++ [.name name] ∧
        (Path.mk (stripSeparator name)).isAbsolute = false ∧
        stagingDir dir = parent.entry (stripSeparator name)) ∨
      stagingDir dir = dir ∧ ∀ name, dir.components.getLast? ≠ some (.name name) := by
  cases hname : dir.fileName? with
  | some name =>
    have hlast := Path.getLast?_of_fileName?_eq_some hname
    cases hparent : dir.parent? with
    | some parent =>
      refine .inl ⟨parent, name, ?_, ?_, ?_⟩
      · rw [Path.components_of_parent?_eq_some hparent]
        exact (List.dropLast_append_getLast? _ hlast).symm
      · apply Path.isAbsolute_eq_false_of_not_mem
        exact not_mem_stripSeparator (by decide) (Path.slash_not_mem_fileName hname)
      · rw [stagingDir, hparent, hname]
    | none =>
      rw [Path.components_of_parent?_eq_none hparent, Path.lead] at hlast
      split at hlast <;> cases hlast
  | none =>
    refine .inr ⟨?_, fun name hlast => ?_⟩
    · rw [stagingDir, hname]
      split
      · rename_i heq
        cases heq
      · rfl
    · rw [Path.fileName?, hlast] at hname
      cases hname

theorem isAbsolute_stagingDir (dir : Path) : (stagingDir dir).isAbsolute = dir.isAbsolute := by
  rcases stagingDir_cases dir with ⟨parent, name, hdir, hrelative, hstaging⟩ | ⟨hstaging, -⟩
  · rw [hstaging, Path.entry, Path.isAbsolute_join parent hrelative, Bool.eq_iff_iff, Path.isAbsolute_iff,
      Path.isAbsolute_iff, hdir, List.head?_append]
    cases parent.components.head? with
    | none => simp
    | some first => rfl
  · rw [hstaging]

theorem separator_mem_iff {p : Path} :
    separator ∈ p.spelling.toList ↔ ∃ component ∈ p.components, separator ∈ component.text.toList :=
  Path.mem_spelling_iff (by decide) (by decide)

/-- The name of the scratch directory is rewritten and those above it are not. -/
theorem separator_mem_stagingDir_iff (dir : Path) :
    separator ∈ (stagingDir dir).spelling.toList ↔
      ∃ component ∈ dir.components.dropLast, separator ∈ component.text.toList := by
  rcases stagingDir_cases dir with ⟨parent, name, hdir, hrelative, hstaging⟩ | ⟨hstaging, hlast⟩
  · rw [hstaging, Path.entry, Path.mem_join_iff hrelative (by decide),
      or_iff_left (separator_not_mem_stripSeparator name), separator_mem_iff, hdir, List.dropLast_concat]
  · rw [hstaging, separator_mem_iff]
    constructor
    · rintro ⟨component, hcomponent, hcomma⟩
      have hnonempty := List.ne_nil_of_mem hcomponent
      rw [← List.dropLast_append_getLast hnonempty, List.mem_append, List.mem_singleton] at hcomponent
      rcases hcomponent with hcomponent | hcomponent
      · exact ⟨component, hcomponent, hcomma⟩
      · -- only names hold separators, and the last component is none
        cases component with
        | name name =>
          refine absurd ?_ (hlast name)
          rw [hcomponent]
          exact List.getLast?_eq_some_getLast hnonempty
        | root | here | up => exact absurd hcomma (by decide)
    · rintro ⟨component, hcomponent, hcomma⟩
      exact ⟨component, List.dropLast_subset _ hcomponent, hcomma⟩

/-- Where the directory for copies is free of separators. -/
theorem separator_not_mem_join_stagingDir_iff (root dir : Path) :
    separator ∉ (root.join (stagingDir dir)).spelling.toList ↔
      (dir.isAbsolute = true ∨ separator ∉ root.spelling.toList) ∧
        ∀ component ∈ dir.components.dropLast, separator ∉ component.text.toList := by
  have hdir : (∀ component ∈ dir.components.dropLast, separator ∉ component.text.toList) ↔
      separator ∉ (stagingDir dir).spelling.toList := by
    simp only [separator_mem_stagingDir_iff, not_exists, not_and]
  rw [hdir]
  by_cases hdirAbsolute : dir.isAbsolute = true
  · rw [Path.join, isAbsolute_stagingDir, if_pos hdirAbsolute]
    exact (and_iff_right (.inl hdirAbsolute)).symm
  · have hrelative : (stagingDir dir).isAbsolute = false := by
      rw [isAbsolute_stagingDir, Bool.eq_false_iff.2 hdirAbsolute]
    rw [Path.mem_join_iff hrelative (by decide), not_or, or_iff_right hdirAbsolute]

/-! ### Copies and friends -/

theorem separator_mem_copy_iff (dir origin : Path) (taken : SortedSet String) :
    separator ∈ (dir.entry (copyName taken origin)).spelling.toList ↔ separator ∈ dir.spelling.toList := by
  have hrelative : (Path.mk (copyName taken origin)).isAbsolute = false :=
    Path.isAbsolute_eq_false_of_not_mem (slash_not_mem_copyName taken origin)
  rw [Path.entry, Path.mem_join_iff hrelative (by decide), or_iff_left (separator_not_mem_copyName taken origin)]

section Stage
variable (root : Path) (friends : List Path) (dir : Path)

/-- A friend is named with a separator when it has one and the directory for copies has one too. -/
theorem separator_mem_resolve_iff {friend : Path} (hfriend : friend ∈ friends) :
    separator ∈ (Classpath.resolve root (stage root friends dir).copies friend).spelling.toList ↔
      separator ∈ (root.absolutize friend).spelling.toList ∧
        separator ∈ (root.join (stagingDir dir)).spelling.toList := by
  by_cases hcomma : separator ∈ (root.absolutize friend).spelling.toList
  · obtain ⟨-, taken, hplace⟩ := copied_once root friends dir hfriend hcomma
    rw [hplace, separator_mem_copy_iff, and_iff_right hcomma]
  · rw [resolve_eq_absolutize root friends dir hcomma]
    exact ⟨fun h => absurd h hcomma, fun h => h.1⟩

/-- The set may hold a path in another spelling, but with the same separators. -/
theorem exists_separator_mem_paths_iff :
    (∃ p ∈ (stage root friends dir).paths, separator ∈ p.spelling.toList) ↔
      ∃ friend ∈ friends,
        separator ∈ (Classpath.resolve root (stage root friends dir).copies friend).spelling.toList := by
  have hpaths := paths_stage root friends dir
  generalize (stage root friends dir).paths = paths at hpaths ⊢
  rw [hpaths]
  constructor
  · rintro ⟨p, hp, hcomma⟩
    obtain ⟨friend, hfriend, rfl⟩ := List.mem_map.1 (SortedSet.mem_of_mem_ofList hp)
    exact ⟨friend, hfriend, hcomma⟩
  · rintro ⟨friend, hfriend, hcomma⟩
    have hmem := List.mem_map_of_mem (f := Classpath.resolve root (stage root friends dir).copies) hfriend
    obtain ⟨p, hp, hmatch⟩ := SortedSet.contains_iff.1 (SortedSet.contains_ofList_of_mem hmem)
    rw [Path.compare_eq_iff, Path.beq_iff] at hmatch
    exact ⟨p, hp, by rwa [separator_mem_iff, ← hmatch, ← separator_mem_iff]⟩

/-- No path to name holds a separator exactly when no friend does, or the copies have a directory without
separators: its own name is rewritten, but neither those of the directories above it nor the root. -/
theorem paths_free_of_separators_iff :
    (∀ p ∈ (stage root friends dir).paths, separator ∉ p.spelling.toList) ↔
      (∀ friend ∈ friends, separator ∉ (root.absolutize friend).spelling.toList) ∨
        (dir.isAbsolute = true ∨ separator ∉ root.spelling.toList) ∧
          ∀ component ∈ dir.components.dropLast, separator ∉ component.text.toList := by
  have hnone : (∀ p ∈ (stage root friends dir).paths, separator ∉ p.spelling.toList) ↔
      ¬ ∃ p ∈ (stage root friends dir).paths, separator ∈ p.spelling.toList := by
    simp only [not_exists, not_and]
  rw [hnone, exists_separator_mem_paths_iff, ← separator_not_mem_join_stagingDir_iff]
  constructor
  · intro h
    by_cases hdir : separator ∈ (root.join (stagingDir dir)).spelling.toList
    · left
      intro friend hfriend hcomma
      exact h ⟨friend, hfriend, (separator_mem_resolve_iff root friends dir hfriend).2 ⟨hcomma, hdir⟩⟩
    · exact .inr hdir
  · rintro h ⟨friend, hfriend, hcomma⟩
    obtain ⟨hcomma, hdir⟩ := (separator_mem_resolve_iff root friends dir hfriend).1 hcomma
    rcases h with h | h
    · exact h friend hfriend hcomma
    · exact h hdir

end Stage

/-- The copy of `x,y.jar` lies below `a,b`, a directory above the scratch directory. -/
theorem copy_below_comma_named_with_comma :
    ∃ p ∈ (stage ⟨"/repo"⟩ [⟨"/repo/out/x,y.jar"⟩] ⟨"buck-out/bin/a,b/__lib_friend_path_jars__"⟩).paths,
      separator ∈ p.spelling.toList := by
  by_contra hnone
  rcases (paths_free_of_separators_iff _ _ _).1 (fun p hp hcomma => hnone ⟨p, hp, hcomma⟩) with hfriends | ⟨-, hdirs⟩
  · exact hfriends _ (List.mem_singleton_self _) (by decide +kernel)
  · exact hdirs (.name "a,b") (by decide +kernel) (by decide +kernel)

end JarPlan.Friends
