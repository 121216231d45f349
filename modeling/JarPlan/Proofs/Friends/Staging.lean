import JarPlan.Proofs.Friends.FreshNames
import JarPlan.Proofs.Path.Join
import JarPlan.Proofs.Sorted.Map
import JarPlan.Proofs.Step.Order
/-!
# The steps that stage friends

Friends are staged by one step that makes the directory and then a copy for each friend that needs one,
or by no step where none does. The names of the copies hold no slash, so every copy lies in the
directory.
-/

namespace JarPlan.Friends

/-! ### Names of copies -/

theorem not_mem_stripSeparator {c : Char} (hline : c ≠ '_') {s : String} (hs : c ∉ s.toList) :
    c ∉ (stripSeparator s).toList := by
  intro h
  rw [stripSeparator, String.toList_ofList, List.mem_flatMap] at h
  obtain ⟨d, hd, h⟩ := h
  split at h
  · simp [hline] at h
  · rw [List.mem_singleton] at h
    exact hs (h ▸ hd)

theorem separator_not_mem_stripSeparator (s : String) : separator ∉ (stripSeparator s).toList := by
  intro h
  rw [stripSeparator, String.toList_ofList, List.mem_flatMap] at h
  obtain ⟨c, -, h⟩ := h
  split at h
  · simp [separator] at h
  · rename_i hc
    exact hc (List.mem_singleton.1 h).symm

def copyName (taken : SortedSet String) (origin : Path) : String :=
  freshName taken (stripSeparator (origin.fileName?.getD ""))

theorem slash_not_mem_copyName (taken : SortedSet String) (origin : Path) :
    '/' ∉ (copyName taken origin).toList := by
  apply not_mem_freshName (by decide) (by decide)
  apply not_mem_stripSeparator (by decide)
  cases hname : origin.fileName? with
  | none => simp
  | some name => exact Path.slash_not_mem_fileName hname

theorem separator_not_mem_copyName (taken : SortedSet String) (origin : Path) :
    separator ∉ (copyName taken origin).toList :=
  not_mem_freshName (by decide) (by decide) taken (separator_not_mem_stripSeparator _)

/-! ### Steps -/

def IsCopyInto (dir : Path) (step : Step) : Prop :=
  ∃ origin destination, step = .copy origin destination .file ∧ destination.startsWith dir = true

/-- No step, or one that makes the directory and then copies into it. -/
def IsStaging (dir : Path) (steps : List Step) : Prop :=
  steps = [] ∨ ∃ copies, steps = .mkdir dir :: copies ∧ ∀ step ∈ copies, IsCopyInto dir step

theorem IsStaging.isPhased {dir : Path} {steps : List Step} (h : IsStaging dir steps) : IsPhased steps := by
  rcases h with rfl | ⟨copies, rfl, hcopies⟩
  · exact .nil
  · refine ⟨[.mkdir dir], copies, rfl, ?_, fun step hstep => ?_⟩
    · intro step hstep
      rw [List.mem_singleton.1 hstep]
      rfl
    · obtain ⟨origin, destination, rfl, -⟩ := hcopies step hstep
      rfl

theorem IsStaging.prepared {dir : Path} {steps : List Step} (h : IsStaging dir steps) {step : Step}
    (hstep : step ∈ steps) : ∀ path ∈ step.writtenPaths, Prepared steps path := by
  rcases h with rfl | ⟨copies, rfl, hcopies⟩
  · cases hstep
  · intro path hpath
    rcases List.mem_cons.1 hstep with rfl | hstep
    · cases hpath
    · obtain ⟨origin, destination, rfl, hlies⟩ := hcopies step hstep
      rw [List.mem_singleton.1 hpath]
      exact ⟨.mkdir dir, List.mem_cons_self, dir, rfl, hlies⟩

/-- The directory is made with the first copy; until then there is no step. -/
def Staged.Valid (dir : Path) (s : Staged) : Prop :=
  if s.copies.isEmpty then s.steps = []
  else ∃ copies, s.steps = .mkdir dir :: copies ∧ ∀ step ∈ copies, IsCopyInto dir step

theorem isCopyInto_entry (dir origin : Path) (taken : SortedSet String) :
    IsCopyInto dir (.copy origin (dir.entry (copyName taken origin)) .file) := by
  refine ⟨origin, _, rfl, Path.entry_startsWith dir fun h => ?_⟩
  exact slash_not_mem_copyName taken origin (List.mem_of_mem_head? h)

theorem Staged.Valid.addCopy {dir : Path} {s : Staged} (h : s.Valid dir) (origin : Path) :
    (s.addCopy dir origin).Valid dir := by
  have hcopy := isCopyInto_entry dir origin s.taken
  have hnonempty : (s.addCopy dir origin).copies.isEmpty = false := SortedMap.isEmpty_insert _ _ _
  rw [Valid, hnonempty, if_neg Bool.false_ne_true]
  by_cases hempty : s.copies.isEmpty
  · rw [Valid, if_pos hempty] at h
    refine ⟨[.copy origin (dir.entry (copyName s.taken origin)) .file], ?_, ?_⟩
    · rw [Staged.addCopy, h, if_pos hempty]
      rfl
    · intro step hstep
      rw [List.mem_singleton.1 hstep]
      exact hcopy
  · rw [Valid, if_neg hempty] at h
    obtain ⟨copies, hsteps, hcopies⟩ := h
    refine ⟨copies ++ [.copy origin (dir.entry (copyName s.taken origin)) .file], ?_, ?_⟩
    · rw [Staged.addCopy, hsteps, if_neg hempty, List.append_nil]
      rfl
    · intro step hstep
      rcases List.mem_append.1 hstep with hstep | hstep
      · exact hcopies step hstep
      · rw [List.mem_singleton.1 hstep]
        exact hcopy

theorem Staged.Valid.add {dir : Path} {s : Staged} (h : s.Valid dir) (origin : Path) :
    (s.add dir origin).Valid dir := by
  rw [Staged.add]
  split
  · split
    · exact h
    · exact h.addCopy origin
  · exact h

theorem valid_foldl_add {dir : Path} (friends : List Path) {s : Staged} (h : s.Valid dir) :
    (friends.foldl (Staged.add dir) s).Valid dir := by
  induction friends generalizing s with
  | nil => exact h
  | cons origin rest ih => exact ih (h.add origin)

/-- However many friends there are, and whatever their names. -/
theorem isStaging_stage (root : Path) (friends : List Path) (dir : Path) :
    IsStaging (root.join (stagingDir dir)) (stage root friends dir).steps := by
  have hvalid : (stage root friends dir).Valid (root.join (stagingDir dir)) := valid_foldl_add _ rfl
  rw [Staged.Valid] at hvalid
  split at hvalid
  · exact .inl hvalid
  · exact .inr hvalid

end JarPlan.Friends
