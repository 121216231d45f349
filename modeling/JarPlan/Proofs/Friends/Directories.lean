import JarPlan.Proofs.Friends.Copies
import JarPlan.Proofs.Friends.Separators
import JarPlan.Proofs.Target.Identity
/-!
# Directories for copies told apart

The directory for copies is a scratch path whose last segment has lost its commas. Only the flavors have
commas between them, so the segment is that of the target with two lines between its flavors, and flavors may
well hold two lines themselves. What the directory tells of a target is its name, whether it has flavors, and
the text its flavors make when they are joined with two lines: two targets of a package that agree in these
share the directory. Where no flavor holds two lines in a row or ends in one, the flavors can be read back.
-/

namespace JarPlan

open Target (IsProper)

namespace Friends

/-! ### Texts without separators -/

/-- What is put for one character. -/
def strippedChar (c : Char) : List Char := if c = separator then ['_', '_'] else [c]

theorem toList_stripSeparator (s : String) : (stripSeparator s).toList = s.toList.flatMap strippedChar := by
  rw [stripSeparator, String.toList_ofList]
  rfl

theorem flatMap_strippedChar_eq_self {s : List Char} (h : separator ∉ s) : s.flatMap strippedChar = s := by
  have hself := stripSeparator_eq_self (s := String.ofList s) (by rwa [String.toList_ofList])
  rw [← String.toList_inj, toList_stripSeparator, String.toList_ofList] at hself
  exact hself

/-- Commas between pieces that have none become pairs of lines. -/
theorem flatMap_strippedChar_intercalate {pieces : List (List Char)} (h : ∀ s ∈ pieces, separator ∉ s) :
    ([','].intercalate pieces).flatMap strippedChar = ['_', '_'].intercalate pieces := by
  induction pieces with
  | nil => rfl
  | cons first others ih =>
    obtain ⟨hfirst, hothers⟩ := List.forall_mem_cons.1 h
    cases others with
    | nil => rw [List.intercalate_singleton, List.intercalate_singleton, flatMap_strippedChar_eq_self hfirst]
    | cons second others =>
      rw [List.intercalate_cons_cons, List.intercalate_cons_cons, List.flatMap_append, List.flatMap_append,
        ih hothers, flatMap_strippedChar_eq_self hfirst]
      rfl

theorem isProper_stripSeparator {name : String} (h : IsProper name) : IsProper (stripSeparator name) := by
  refine ⟨isName_stripSeparator h.1, ?_⟩
  by_cases hsep : separator ∈ name.toList
  · intro hup
    have hline := line_mem_stripSeparator hsep
    rw [hup] at hline
    exact absurd hline (by decide)
  · rw [stripSeparator_eq_self hsep]
    exact h.2

/-! ### The directory of a target -/

/-- The last segment is rewritten and the others stay. -/
theorem components_stagingDir_entry (p : Path) {name : String} (h : IsProper name) :
    (stagingDir (p.entry name)).components = p.components ++ [.name (stripSeparator name)] := by
  have hentry : (p.entry name).components = p.components ++ [.name name] :=
    Path.components_entry p (Path.components_mk h.1 h.2)
  rcases stagingDir_cases (p.entry name) with ⟨parent, last, hparts, -, hstaging⟩ | ⟨-, hlast⟩
  · rw [hentry] at hparts
    obtain ⟨hparent, hname⟩ := List.append_inj' hparts rfl
    obtain rfl := Component.name.inj (List.cons.inj hname).1
    have hproper := isProper_stripSeparator h
    rw [hstaging, Path.components_entry parent (Path.components_mk hproper.1 hproper.2), hparent]
  · rw [hentry, List.getLast?_concat] at hlast
    exact absurd rfl (hlast name)

section Target
variable {t u : Target}

/-- What stands around the name with its flavors stays, where it is free of separators. -/
theorem toList_stripSeparator_segment (t : Target) {template : Template} {front back : List Char}
    (hcut : Text.splitAll ['%', 's'] template.text.toList = [front, back]) (hfront : separator ∉ front)
    (hback : separator ∉ back) :
    (stripSeparator (t.segment template)).toList = front ++ t.flavoredName.toList.flatMap strippedChar ++ back := by
  rw [toList_stripSeparator, Target.toList_segment hcut, List.flatMap_append, List.flatMap_append,
    flatMap_strippedChar_eq_self hfront, flatMap_strippedChar_eq_self hback]

theorem flatMap_strippedChar_flavoredName (ht : t.IsUnmarked) :
    t.flavoredName.toList.flatMap strippedChar = t.nameWith ['_', '_'] := by
  have hfree := ht.name ',' (by decide)
  rw [Target.toList_flavoredName, Target.nameWith, Target.nameWith]
  split
  · rw [List.flatMap_append, flatMap_strippedChar_eq_self hfree, List.flatMap_cons,
      flatMap_strippedChar_intercalate (ht.not_mem_of_mem_flavors (by decide))]
    rfl
  · exact flatMap_strippedChar_eq_self hfree

theorem stripSeparator_segment_inj (ht : t.IsUnmarked) (hu : u.IsUnmarked) :
    stripSeparator (t.segment .friendJars) = stripSeparator (u.segment .friendJars) ↔
      t.nameWith ['_', '_'] = u.nameWith ['_', '_'] := by
  have hcut : Text.splitAll ['%', 's'] Template.friendJars.text.toList =
      ["__".toList, "_friend_path_jars__".toList] := by decide +kernel
  have hfront : separator ∉ "__".toList := by decide
  have hback : separator ∉ "_friend_path_jars__".toList := by decide
  rw [← String.toList_inj, toList_stripSeparator_segment t hcut hfront hback,
    toList_stripSeparator_segment u hcut hfront hback, List.append_cancel_right_eq, List.append_cancel_left_eq,
    flatMap_strippedChar_flavoredName ht, flatMap_strippedChar_flavoredName hu]

/-- Targets with one base path share the directory exactly when they share its last segment. -/
theorem stagingDir_scratchPath_beq_iff (roots : OutputRoots) (ht : t.IsUnmarked) (hu : u.IsUnmarked)
    (hbase : t.basePath = u.basePath) :
    (stagingDir (roots.scratchPath t .friendJars) == stagingDir (roots.scratchPath u .friendJars)) = true ↔
      t.nameWith ['_', '_'] = u.nameWith ['_', '_'] := by
  have hframe : Template.friendJars.isFrame = true := by decide +kernel
  have hdir : t.base = u.base := by
    rw [Target.base, Target.base, Target.trimmedBase, Target.trimmedBase, hbase]
  rw [Path.beq_iff, OutputRoots.scratchPath, OutputRoots.scratchPath, OutputRoots.pathIn, OutputRoots.pathIn, hdir,
    components_stagingDir_entry _ (Target.isProper_segment ht.slash_not_mem_flavoredName hframe),
    components_stagingDir_entry _ (Target.isProper_segment hu.slash_not_mem_flavoredName hframe),
    List.append_cancel_left_eq, List.cons.injEq, Component.name.injEq, stripSeparator_segment_inj ht hu]
  exact and_iff_left rfl

/-- Flavors with no two lines in a row, also where a line follows them, are read back. -/
theorem splitAll_flavors (hflavored : t.isFlavored = true)
    (h : ∀ f ∈ t.flavors, ¬ ['_', '_'] <:+: f.toList ++ ['_']) :
    Text.splitAll ['_', '_'] (['_', '_'].intercalate (t.flavors.toList.map String.toList)) =
      t.flavors.toList.map String.toList := by
  apply Text.splitAll_intercalate (List.cons_ne_nil _ _) (Target.flavors_ne_nil hflavored)
  intro piece hpiece
  obtain ⟨f, hf, rfl⟩ := List.mem_map.1 hpiece
  exact h f hf

end Target

/-- Two targets with one base path have one directory for copies exactly when their names agree, both or none
of them have flavors, and the flavors make one text when two lines are put between them. So the directory is
theirs alone where no flavor has two lines in a row, or one at its end. -/
theorem staging_shared_iff (roots : OutputRoots) {t u : Target} (ht : t.IsUnmarked) (hu : u.IsUnmarked)
    (hbase : t.basePath = u.basePath) :
    ((stagingDir (roots.scratchPath t .friendJars) == stagingDir (roots.scratchPath u .friendJars)) = true ↔
      t.name = u.name ∧ t.isFlavored = u.isFlavored ∧
        "__".intercalate t.flavors.toList = "__".intercalate u.flavors.toList) ∧
    ((∀ f, f ∈ t.flavors ∨ f ∈ u.flavors → ¬ ['_', '_'] <:+: f.toList ++ ['_']) → t ≠ u →
      (stagingDir (roots.scratchPath t .friendJars) == stagingDir (roots.scratchPath u .friendJars)) = false) := by
  rw [stagingDir_scratchPath_beq_iff roots ht hu hbase]
  constructor
  · have hjoined (l : List String) : ['_', '_'].intercalate (l.map String.toList) = ("__".intercalate l).toList := by
      rw [String.toList_intercalate]
      rfl
    rw [Target.nameWith_eq_iff ['_', '_'] ht hu (by decide), hjoined, hjoined, String.toList_inj]
  · intro hflavors hne
    rw [← Bool.not_eq_true, stagingDir_scratchPath_beq_iff roots ht hu hbase]
    intro h
    refine hne (Target.eq_of_parts_eq hbase ?_)
    exact Target.eq_of_nameWith_eq ['_', '_'] ht hu (by decide) (Text.splitAll ['_', '_'])
      (fun hflavored => splitAll_flavors hflavored fun f hf => hflavors f (.inl hf))
      (fun hflavored => splitAll_flavors hflavored fun f hf => hflavors f (.inr hf)) h

/-- A library in some flavors. -/
def flavoredLibrary (flavors : List String) : Target := ⟨"java/com/foo", "lib", .ofList flavors⟩

theorem isUnmarked_flavoredLibrary (flavors : List String)
    (h : ∀ f ∈ (flavoredLibrary flavors).flavors.toList, '/' ∉ f.toList ∧ '#' ∉ f.toList ∧ ',' ∉ f.toList) :
    (flavoredLibrary flavors).IsUnmarked where
  name := by
    have hname : '/' ∉ "lib".toList ∧ '#' ∉ "lib".toList ∧ ',' ∉ "lib".toList := by decide +kernel
    exact Target.forall_mem_marks hname
  flavors f hf := Target.forall_mem_marks (h f hf)

/-- The flavors `a` and `b` share a directory with the one flavor `a__b`, but not with `a_b`. -/
theorem two_flavors_share_with_one :
    ((stagingDir ((OutputRoots.below ⟨"out"⟩).scratchPath (flavoredLibrary ["a", "b"]) .friendJars) ==
      stagingDir ((OutputRoots.below ⟨"out"⟩).scratchPath (flavoredLibrary ["a__b"]) .friendJars)) = true ∧
      flavoredLibrary ["a", "b"] ≠ flavoredLibrary ["a__b"]) ∧
    (stagingDir ((OutputRoots.below ⟨"out"⟩).scratchPath (flavoredLibrary ["a", "b"]) .friendJars) ==
      stagingDir ((OutputRoots.below ⟨"out"⟩).scratchPath (flavoredLibrary ["a_b"]) .friendJars)) = false := by
  have hab := isUnmarked_flavoredLibrary ["a", "b"] (by decide +kernel)
  constructor
  · have hjoined := isUnmarked_flavoredLibrary ["a__b"] (by decide +kernel)
    exact ⟨(staging_shared_iff (.below ⟨"out"⟩) hab hjoined rfl).1.2 (by decide +kernel), by decide +kernel⟩
  · have hline := isUnmarked_flavoredLibrary ["a_b"] (by decide +kernel)
    refine (staging_shared_iff (.below ⟨"out"⟩) hab hline rfl).2 ?_ (by decide +kernel)
    have hflavors : ∀ f ∈ (flavoredLibrary ["a", "b"]).flavors.toList ++ (flavoredLibrary ["a_b"]).flavors.toList,
        ¬ ['_', '_'] <:+: f.toList ++ ['_'] := by decide +kernel
    intro f hf
    exact hflavors f (List.mem_append.2 hf)

end Friends

end JarPlan
