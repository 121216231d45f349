import JarPlan.Proofs.Friends.Places
import JarPlan.Proofs.Path.Tidy
/-!
# Copies with tidy paths

Where the root and the scratch directory are tidy, so are the paths of all copies: rewriting its separators
leaves a name a name, and so does a number put in front of it. A friend that needs a copy has a file name,
since only names hold separators.
-/

namespace JarPlan.Friends

/-! ### Names -/

theorem stripSeparator_eq_self {s : String} (h : separator ∉ s.toList) : stripSeparator s = s := by
  have hkeep : s.toList.flatMap (fun c => if c = separator then ['_', '_'] else [c]) = s.toList.flatMap ([·]) := by
    apply List.flatMap_congr
    intro c hc
    have hne : c ≠ separator := by
      rintro rfl
      exact h hc
    rw [if_neg hne]
  rw [stripSeparator, hkeep, List.flatMap_singleton', String.ofList_toList]

theorem line_mem_stripSeparator {name : String} (h : separator ∈ name.toList) :
    '_' ∈ (stripSeparator name).toList := by
  rw [stripSeparator, String.toList_ofList, List.mem_flatMap]
  exact ⟨separator, h, by simp⟩

theorem isName_stripSeparator {name : String} (h : Path.IsName name.toList) :
    Path.IsName (stripSeparator name).toList := by
  refine ⟨not_mem_stripSeparator (by decide) h.1, ?_⟩
  by_cases hsep : separator ∈ name.toList
  · exact Path.isVoid_eq_false_of_mem (line_mem_stripSeparator hsep) (by decide)
  · rw [stripSeparator_eq_self hsep]
    exact h.2

theorem line_mem_candidate (name : String) (n : Nat) : '_' ∈ (candidate name (n + 1)).toList := by
  rw [toList_candidate_succ]
  exact List.mem_append_right _ List.mem_cons_self

theorem isName_candidate {name : String} (h : Path.IsName name.toList) (n : Nat) :
    Path.IsName (candidate name n).toList := by
  refine ⟨not_mem_candidate (by decide) (by decide) h.1 n, ?_⟩
  cases n with
  | zero => exact h.2
  | succ n => exact Path.isVoid_eq_false_of_mem (line_mem_candidate name n) (by decide)

theorem isName_fileName {p : Path} {name : String} (h : p.fileName? = some name) : Path.IsName name.toList :=
  Path.isName_of_mem_components (List.mem_of_getLast? (Path.getLast?_of_fileName?_eq_some h))

theorem isName_copyName (taken : SortedSet String) {origin : Path} {name : String}
    (h : origin.fileName? = some name) : Path.IsName (copyName taken origin).toList := by
  obtain ⟨n, hfresh⟩ := exists_freshName_eq taken (stripSeparator name)
  rw [copyName, h, Option.getD_some, hfresh]
  exact isName_candidate (isName_stripSeparator (isName_fileName h)) n

/-- In a plain path only names hold separators, and behind the first name there are names only. -/
theorem exists_fileName_of_needsCopy {p : Path} (hplain : p.normalize = p) (h : needsCopy p = true) :
    ∃ name, p.fileName? = some name := by
  have hnormal : Path.IsNormal p.components := by
    rw [← hplain, Path.components_normalize]
    exact Path.isNormal_resolve p
  obtain ⟨base, names, hcomponents, hbase, hnames⟩ := hnormal
  obtain ⟨component, hcomponent, hsep⟩ :=
    (Path.mem_spelling_iff (by decide) (by decide)).1 (needsCopy_iff.1 h)
  have hfree : ∀ c ∈ base, separator ∉ c.text.toList := by
    rcases hbase with rfl | ⟨n, rfl⟩
    · exact List.forall_mem_singleton.2 (by decide)
    · intro c hc
      rw [List.eq_of_mem_replicate hc]
      decide
  have hne : names ≠ [] := by
    rintro rfl
    rw [hcomponents, List.append_nil] at hcomponent
    exact hfree component hcomponent hsep
  obtain ⟨hsegment, hup⟩ := hnames _ (List.getLast_mem hne)
  obtain ⟨text, htext⟩ := hsegment.cases.resolve_left hup
  refine ⟨text, ?_⟩
  rw [Path.fileName?, hcomponents, List.getLast?_append_of_ne_nil _ hne, List.getLast?_eq_some_getLast hne, htext]

/-! ### Paths of copies -/

theorem isTidy_stagingDir {dir : Path} (hdir : dir.IsTidy) : (stagingDir dir).IsTidy := by
  rw [stagingDir]
  split
  · rename_i parent name hparent hname
    exact (hdir.parent hparent).entry (isName_stripSeparator (isName_fileName hname))
  · exact hdir

theorem spelling_stagingDir_ne {dir : Path} (hdir : dir.spelling ≠ "") : (stagingDir dir).spelling ≠ "" := by
  rw [stagingDir]
  split
  · rename_i parent name hparent hname
    intro hempty
    have hnone : ∀ c, c ∉ (stripSeparator name).toList := fun c hc => by
      have hmem := Path.mem_join_of_mem_right parent (q := ⟨stripSeparator name⟩) hc
      rw [← Path.entry, hempty] at hmem
      cases hmem
    exact (isName_stripSeparator (isName_fileName hname)).ne_nil (List.eq_nil_iff_forall_not_mem.2 hnone)
  · exact hdir

section Stage
variable {root dir : Path} (htidy : root.IsTidy) (hdir : dir.IsTidy) (hne : dir.spelling ≠ "")
include htidy hdir hne

/-- The place of a jar is tidy, whether it is its own or that of a copy. -/
theorem isTidy_resolve (friends : List Path) (p : Path) :
    (Classpath.resolve root (stage root friends dir).copies p).IsTidy := by
  rcases resolve_cases root friends dir p with ⟨-, hplace⟩ | ⟨⟨hcomma, -⟩, taken, hcopy⟩
  · rw [hplace]
    exact Path.isTidy_normalize _
  · obtain ⟨name, hname⟩ := exists_fileName_of_needsCopy (root.normalize_absolutize p) (needsCopy_iff.2 hcomma)
    rw [hcopy]
    exact (htidy.join (isTidy_stagingDir hdir) (spelling_stagingDir_ne hne)).entry (isName_copyName taken hname)

end Stage

end JarPlan.Friends
