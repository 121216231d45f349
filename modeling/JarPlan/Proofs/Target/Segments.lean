import JarPlan.Proofs.Friends.Directories
/-!
# Segments of one target told apart

The paths that a plan has to itself are told apart by one segment each, in which the name of the target, with
its flavors, stands between two texts. For most templates the texts behind the name do not end in each other,
so no two names give one segment; for the others more stands around the name in one of them than in the other,
so one name gives segments of different lengths. Rewriting commas only makes a name longer.
-/

namespace JarPlan

/-! ### Templates -/

namespace Template

/-- Whether the template and another one never make the same of a name and of one that is not longer: neither
text behind the name ends in the other, or more stands around the first name. -/
def outgrows (template other : Template) : Bool :=
  match Text.splitAll ['%', 's'] template.text.toList, Text.splitAll ['%', 's'] other.text.toList with
  | [front, back], [front', back'] =>
    !back.isSuffixOf back' && !back'.isSuffixOf back || (front' ++ back').length < (front ++ back).length
  | _, _ => false

variable {template other : Template}

theorem exists_of_outgrows (h : template.outgrows other = true) : ∃ front back front' back',
    Text.splitAll ['%', 's'] template.text.toList = [front, back] ∧
      Text.splitAll ['%', 's'] other.text.toList = [front', back'] ∧
      (¬ back <:+ back' ∧ ¬ back' <:+ back ∨ (front' ++ back').length < (front ++ back).length) := by
  rw [outgrows] at h
  split at h
  · rename_i front back front' back' hcut hcut'
    refine ⟨front, back, front', back', hcut, hcut', ?_⟩
    rw [Bool.or_eq_true, Bool.and_eq_true, Bool.not_eq_true', Bool.not_eq_true', ← Bool.not_eq_true,
      ← Bool.not_eq_true, List.isSuffixOf_iff_suffix, List.isSuffixOf_iff_suffix, decide_eq_true_eq] at h
    exact h
  · cases h

/-- Texts with other ends, or with more around the middle. -/
theorem append_ne {front back front' back' s s' : List Char}
    (h : ¬ back <:+ back' ∧ ¬ back' <:+ back ∨ (front' ++ back').length < (front ++ back).length)
    (hlength : s'.length ≤ s.length) : front ++ s ++ back ≠ front' ++ s' ++ back' := by
  intro heq
  rcases h with ⟨hback, hback'⟩ | hlonger
  · have hend : back <:+ front' ++ s' ++ back' := ⟨front ++ s, heq⟩
    have hend' : back' <:+ front' ++ s' ++ back' := List.suffix_append _ _
    rcases Nat.le_total back.length back'.length with hle | hle
    · exact hback (List.suffix_of_suffix_length_le hend hend' hle)
    · exact hback' (List.suffix_of_suffix_length_le hend' hend hle)
  · have hlengths := congrArg List.length heq
    simp only [List.length_append] at hlengths hlonger
    omega

/-- The templates of the directories that a plan cleans. -/
def cleaned (flavored : Bool) : List Template :=
  [stubs, processedClasses, kotlinGenerated, processedSources, merged flavored, generatedArchive, reports,
    pluginGenerated]

/-- The templates of the standard outputs of a unit. -/
def outputs : List Template := [classes, outputJar, sourcesList, workingDirectory]

theorem pairwise_outgrows (flavored : Bool) :
    (cleaned flavored ++ outputs).Pairwise fun a b => a.outgrows b = true ∨ b.outgrows a = true := by
  cases flavored
  · decide +kernel
  · decide +kernel

theorem friendJars_outgrows (flavored : Bool) :
    ∀ template ∈ cleaned flavored ++ outputs, friendJars.outgrows template = true := by
  cases flavored
  · decide +kernel
  · decide +kernel

end Template

/-! ### Segments -/

namespace Friends

theorem length_le_length_flatMap_strippedChar (s : List Char) : s.length ≤ (s.flatMap strippedChar).length := by
  induction s with
  | nil => exact Nat.le_refl 0
  | cons c rest ih =>
    have hchar : 1 ≤ (strippedChar c).length := by
      rw [strippedChar]
      split
      · decide
      · exact Nat.le_refl 1
    rw [List.flatMap_cons, List.length_append, List.length_cons]
    omega

/-- The rewritten segment of the directory for copies is none that is made with a shorter template. -/
theorem stripSeparator_segment_ne (t : Target) {other : Template}
    (h : Template.friendJars.outgrows other = true) : stripSeparator (t.segment .friendJars) ≠ t.segment other := by
  obtain ⟨front, back, front', back', hcut, hcut', hdiffer⟩ := Template.exists_of_outgrows h
  have hfree : ∀ piece ∈ Text.splitAll ['%', 's'] Template.friendJars.text.toList, separator ∉ piece := by
    decide +kernel
  rw [hcut, List.forall_mem_cons, List.forall_mem_singleton] at hfree
  intro heq
  have hchars := congrArg String.toList heq
  rw [toList_stripSeparator_segment t hcut hfree.1 hfree.2, Target.toList_segment hcut'] at hchars
  exact Template.append_ne hdiffer (length_le_length_flatMap_strippedChar _) hchars

end Friends

namespace Target

theorem segment_ne (t : Target) {template other : Template} (h : template.outgrows other = true) :
    t.segment template ≠ t.segment other := by
  obtain ⟨front, back, front', back', hcut, hcut', hdiffer⟩ := Template.exists_of_outgrows h
  intro heq
  have hchars := congrArg String.toList heq
  rw [toList_segment hcut, toList_segment hcut'] at hchars
  exact Template.append_ne hdiffer (Nat.le_refl _) hchars

/-- The segments that tell the paths of one plan apart. -/
def ownedSegments (t : Target) : List String :=
  (Template.cleaned t.isFlavored).map t.segment ++ Friends.stripSeparator (t.segment .friendJars) ::
    Template.outputs.map t.segment

theorem pairwise_ownedSegments (t : Target) : t.ownedSegments.Pairwise (· ≠ ·) := by
  have hsegments : ((Template.cleaned t.isFlavored ++ Template.outputs).map t.segment).Pairwise (· ≠ ·) := by
    apply List.pairwise_map.2
    apply (Template.pairwise_outgrows t.isFlavored).imp
    intro template other h
    rcases h with h | h
    · exact t.segment_ne h
    · exact (t.segment_ne h).symm
  rw [ownedSegments, List.pairwise_middle Ne.symm, ← List.map_append, List.pairwise_cons]
  refine ⟨fun segment hsegment => ?_, hsegments⟩
  obtain ⟨template, htemplate, rfl⟩ := List.mem_map.1 hsegment
  exact Friends.stripSeparator_segment_ne t (Template.friendJars_outgrows t.isFlavored template htemplate)

end Target

end JarPlan
