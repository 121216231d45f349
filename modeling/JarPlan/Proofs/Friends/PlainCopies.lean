import JarPlan.Proofs.Friends.Directories
/-!
# Copies with plain paths

The place of a jar is either resolved, and then plain, or it is that of a copy. The name of a copy is one name
whatever friend it is made of, so the place of the copy is plain exactly where the directory for copies is.
This directory is joined to the root and not resolved: it is plain where the root and the scratch directory are
and nothing in the scratch directory leads up, and a dot or a `..` in it stays.
-/

namespace JarPlan

open Target (IsProper)

namespace Friends

/-! ### Names of copies -/

theorem isProper_fileName {p : Path} {name : String} (h : p.fileName? = some name) : IsProper name :=
  ⟨isName_fileName h,
    Path.ne_up_of_mem_components (List.mem_of_getLast? (Path.getLast?_of_fileName?_eq_some h))⟩

theorem isProper_candidate {name : String} (h : IsProper name) (n : Nat) : IsProper (candidate name n) := by
  cases n with
  | zero => exact h
  | succ n =>
    exact Target.isProper_of_mem (isName_candidate h.1 (n + 1)).1 (line_mem_candidate name n) (by decide)

theorem isProper_copyName (taken : SortedSet String) {origin : Path} {name : String}
    (h : origin.fileName? = some name) : IsProper (copyName taken origin) := by
  obtain ⟨n, hfresh⟩ := exists_freshName_eq taken (stripSeparator name)
  rw [copyName, h, Option.getD_some, hfresh]
  exact isProper_candidate (isProper_stripSeparator (isProper_fileName h)) n

/-! ### The directory for copies -/

theorem exists_getLast?_stagingDir {dir : Path} {c : Char} (hend : dir.spelling.toList.getLast? = some c)
    (hslash : c ≠ '/') : ∃ c, (stagingDir dir).spelling.toList.getLast? = some c ∧ c ≠ '/' := by
  rw [stagingDir]
  split
  · rename_i parent name hparent hname
    obtain ⟨c, hlast, hne⟩ := Path.exists_getLast?_of_isName (isName_stripSeparator (isName_fileName hname))
    exact ⟨c, Path.getLast?_join parent hlast, hne⟩
  · exact ⟨c, hend, hslash⟩

theorem isDownward_stagingDir {dir : Path} (h : dir.IsDownward) : (stagingDir dir).IsDownward := by
  obtain ⟨names, hnames, hcomponents⟩ := h
  rcases stagingDir_cases dir with ⟨parent, name, hparts, -, hstaging⟩ | ⟨hstaging, -⟩
  · have hname : dir.fileName? = some name := by rw [Path.fileName?, hparts, List.getLast?_concat]
    have hproper := isProper_stripSeparator (isProper_fileName hname)
    have hfront : ∃ front, (∀ c ∈ front, ∃ text, c = .name text) ∧
        parent.components = (if dir.isAbsolute then [.root] else []) ++ front := by
      cases names using List.reverseRecOn with
      | nil =>
        have hlast := congrArg List.getLast? hcomponents
        rw [hparts, List.append_nil, List.getLast?_concat] at hlast
        split at hlast <;> cases hlast
      | append_singleton front last =>
        rw [hparts, ← List.append_assoc] at hcomponents
        exact ⟨front, fun c hc => hnames c (List.mem_append_left _ hc), (List.append_inj' hcomponents rfl).1⟩
    obtain ⟨front, hnames, hparent⟩ := hfront
    refine ⟨front ++ [.name (stripSeparator name)], ?_, ?_⟩
    · exact List.forall_mem_append.2 ⟨hnames, List.forall_mem_singleton.2 ⟨_, rfl⟩⟩
    · rw [isAbsolute_stagingDir, hstaging, Path.components_entry parent (Path.components_mk hproper.1 hproper.2),
        hparent, List.append_assoc]
  · rw [hstaging]
    exact ⟨names, hnames, hcomponents⟩

/-! ### Places of jars -/

section Stage
variable {root dir : Path}

theorem isAbsolute_resolve (hroot : root.isAbsolute = true) (friends : List Path) (p : Path) :
    (Classpath.resolve root (stage root friends dir).copies p).isAbsolute = true := by
  rcases resolve_cases root friends dir p with ⟨-, hplace⟩ | ⟨⟨hcomma, -⟩, taken, hcopy⟩
  · rw [hplace]
    exact Path.isAbsolute_absolutize hroot p
  · obtain ⟨name, hname⟩ := exists_fileName_of_needsCopy (root.normalize_absolutize p) (needsCopy_iff.2 hcomma)
    have hrelative := Path.isAbsolute_eq_false_of_not_mem (p := ⟨copyName taken (root.absolutize p)⟩)
      (isProper_copyName taken hname).1.1
    rw [hcopy, Path.entry, Path.isAbsolute_join _ hrelative]
    by_cases hdir : (stagingDir dir).isAbsolute = true
    · rw [Path.join_of_isAbsolute root hdir, hdir]
    · rw [Path.isAbsolute_join root (Bool.eq_false_iff.2 hdir), hroot]

/-- A place is plain unless it is that of a copy in a directory that is not. -/
theorem normalize_resolve_eq_iff {c : Char} (hend : dir.spelling.toList.getLast? = some c) (hslash : c ≠ '/')
    (friends : List Path) (p : Path) :
    (Classpath.resolve root (stage root friends dir).copies p).normalize =
        Classpath.resolve root (stage root friends dir).copies p ↔
      (IsCopied root friends p → (root.join (stagingDir dir)).normalize = root.join (stagingDir dir)) := by
  rcases resolve_cases root friends dir p with ⟨hown, hplace⟩ | ⟨hcopied, taken, hcopy⟩
  · rw [hplace]
    exact iff_of_true (root.normalize_absolutize p) fun hcopied => absurd hcopied hown
  · obtain ⟨name, hname⟩ := exists_fileName_of_needsCopy (root.normalize_absolutize p) (needsCopy_iff.2 hcopied.1)
    have hproper := isProper_copyName taken hname
    obtain ⟨last, hlast, hne⟩ := exists_getLast?_stagingDir hend hslash
    rw [hcopy, Path.normalize_entry_eq_iff hproper.1 hproper.2 (Path.getLast?_join root hlast) hne]
    exact ⟨fun hplain _ => hplain, fun h => h hcopied⟩

end Stage

end Friends

end JarPlan
