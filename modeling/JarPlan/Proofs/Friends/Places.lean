import JarPlan.Classpath
import JarPlan.Proofs.Friends.Staging
import JarPlan.Proofs.Lists
import JarPlan.Proofs.Path.Relative
import JarPlan.Proofs.Sorted.Set
/-!
# The path that stands for a friend

Staging keeps a table of copies. The path that stands for a friend is its copy, where the table has one,
and the friend itself otherwise. Friends are taken in one after the other while the table grows, but no
entry of it changes and no friend that was passed gets one later, so the paths that are staged are those
that the finished table gives. Each entry comes with one step that makes the copy.
-/

namespace JarPlan

/-- Whether the step copies the file `origin`. -/
def Step.isFileCopyOf (origin : Path) : Step → Bool
  | .copy source _ .file => source == origin
  | _ => false

namespace Friends

theorem needsCopy_iff {p : Path} : needsCopy p = true ↔ separator ∈ p.spelling.toList :=
  List.contains_iff_mem

theorem needsCopy_congr {p q : Path} (h : (p == q) = true) : needsCopy p = needsCopy q := by
  rw [Bool.eq_iff_iff, needsCopy_iff, needsCopy_iff, Path.mem_spelling_iff (by decide) (by decide),
    Path.mem_spelling_iff (by decide) (by decide), Path.beq_iff.1 h]

/-! ### Copies in order -/

/-- The steps that make copies, given as pairs of a friend and its copy. -/
def copySteps (dir : Path) (pairs : List (Path × Path)) : List Step :=
  (if pairs.isEmpty then [] else [.mkdir dir]) ++ pairs.map fun e => .copy e.1 e.2 .file

theorem copySteps_append_singleton (dir : Path) (pairs : List (Path × Path)) (e : Path × Path) :
    copySteps dir (pairs ++ [e]) =
      copySteps dir pairs ++ (if pairs.isEmpty then [.mkdir dir] else []) ++ [.copy e.1 e.2 .file] := by
  cases pairs with
  | nil => rfl
  | cons first rest => simp [copySteps]

/-- Among pairs of different friends there is one at most for a path. -/
theorem filter_pairs_eq_singleton {pairs : List (Path × Path)} {e : Path × Path} {origin : Path}
    (hdistinct : pairs.Pairwise fun a b => a.1.components ≠ b.1.components) (he : e ∈ pairs)
    (horigin : (e.1 == origin) = true) : pairs.filter (·.1 == origin) = [e] := by
  refine filter_eq_singleton (hdistinct.imp fun {a b} hne hboth => hne ?_) he horigin
  exact (Path.beq_iff.1 hboth.1).trans (Path.beq_iff.1 hboth.2).symm

theorem filter_copySteps (dir : Path) (pairs : List (Path × Path)) (origin : Path) :
    (copySteps dir pairs).filter (Step.isFileCopyOf origin) =
      (pairs.filter (·.1 == origin)).map fun e => .copy e.1 e.2 .file := by
  have hmkdir : (if pairs.isEmpty then [] else [Step.mkdir dir]).filter (Step.isFileCopyOf origin) = [] := by
    split <;> rfl
  rw [copySteps, List.filter_append, hmkdir, List.nil_append, List.filter_map]
  rfl

/-! ### The table -/

namespace Staged

/-- The path that stands for a friend. -/
def place (s : Staged) (origin : Path) : Path := (s.copies.get? origin).getD origin

/-- What holds when the friends `seen` have been taken in and `pairs` have been copied for them. -/
structure Ledger (dir : Path) (seen : List Path) (pairs : List (Path × Path)) (s : Staged) : Prop where
  paths : s.paths = .ofList (seen.map s.place)
  steps : s.steps = copySteps dir pairs
  isEmpty : s.copies.isEmpty = pairs.isEmpty
  distinct : pairs.Pairwise fun a b => a.1.components ≠ b.1.components
  get? : ∀ origin copy, s.copies.get? origin = some copy ↔ ∃ e ∈ pairs, (origin == e.1) = true ∧ e.2 = copy
  copied : ∀ e ∈ pairs, e.1 ∈ seen ∧ needsCopy e.1 = true ∧ ∃ taken, e.2 = dir.entry (copyName taken e.1)
  complete : ∀ origin ∈ seen, needsCopy origin = true → (s.copies.get? origin).isSome = true

section
variable {dir : Path} {seen : List Path} {pairs : List (Path × Path)} {s : Staged}

theorem Ledger.empty (dir : Path) : Ledger dir [] [] {} where
  paths := rfl
  steps := rfl
  isEmpty := rfl
  distinct := .nil
  get? := by simp
  copied := by simp
  complete := by simp

/-- Only friends that cannot be named as they are have copies. -/
theorem Ledger.needsCopy_of_isSome (h : Ledger dir seen pairs s) {origin : Path}
    (hsome : (s.copies.get? origin).isSome = true) : needsCopy origin = true := by
  obtain ⟨copy, hcopy⟩ := Option.isSome_iff_exists.1 hsome
  obtain ⟨e, he, hmatch, -⟩ := (h.get? origin copy).1 hcopy
  rw [needsCopy_congr hmatch]
  exact (h.copied e he).2.1

theorem Ledger.place_of_not_needsCopy (h : Ledger dir seen pairs s) {origin : Path}
    (hclean : needsCopy origin = false) : s.place origin = origin := by
  cases hget : s.copies.get? origin with
  | none => rw [place, hget, Option.getD_none]
  | some copy =>
    have hneeds := h.needsCopy_of_isSome (by rw [hget]; rfl)
    rw [hclean] at hneeds
    cases hneeds

/-- The places of the friends are those without a separator, and the copies. -/
theorem Ledger.mem_places_iff (h : Ledger dir seen pairs s) (p : Path) :
    p ∈ seen.map s.place ↔ (p ∈ seen ∧ separator ∉ p.spelling.toList) ∨ ∃ origin, (origin, p) ∈ pairs := by
  have hclean {q : Path} (hq : separator ∉ q.spelling.toList) : s.place q = q :=
    h.place_of_not_needsCopy (Bool.eq_false_iff.2 (mt needsCopy_iff.1 hq))
  rw [List.mem_map]
  constructor
  · rintro ⟨origin, hseen, rfl⟩
    by_cases hsep : separator ∈ origin.spelling.toList
    · obtain ⟨copy, hcopy⟩ := Option.isSome_iff_exists.1 (h.complete origin hseen (needsCopy_iff.2 hsep))
      obtain ⟨⟨friend, copy'⟩, he, -, rfl⟩ := (h.get? origin copy).1 hcopy
      rw [place, hcopy, Option.getD_some]
      exact .inr ⟨friend, he⟩
    · rw [hclean hsep]
      exact .inl ⟨hseen, hsep⟩
  · rintro (⟨hseen, hsep⟩ | ⟨origin, he⟩)
    · exact ⟨p, hseen, hclean hsep⟩
    · have hcopy := (h.get? origin p).2 ⟨_, he, Path.beq_iff.2 rfl, rfl⟩
      refine ⟨origin, (h.copied _ he).1, ?_⟩
      rw [place, hcopy, Option.getD_some]

/-- A friend that is clean, or that the table knows, adds its place and changes nothing else. -/
theorem Ledger.insert (h : Ledger dir seen pairs s) {origin : Path}
    (hknown : needsCopy origin = true → (s.copies.get? origin).isSome = true) :
    Ledger dir (seen ++ [origin]) pairs { s with paths := s.paths.insert (s.place origin) } where
  paths := by
    show s.paths.insert (s.place origin) = .ofList ((seen ++ [origin]).map s.place)
    rw [List.map_append, List.map_singleton, SortedSet.ofList_append_singleton, h.paths]
  steps := h.steps
  isEmpty := h.isEmpty
  distinct := h.distinct
  get? := h.get?
  copied := fun e he => ⟨List.mem_append_left _ (h.copied e he).1, (h.copied e he).2⟩
  complete := by
    intro other hother hneeds
    rcases List.mem_append.1 hother with hother | hother
    · exact h.complete other hother hneeds
    · rw [List.mem_singleton.1 hother] at hneeds ⊢
      exact hknown hneeds

/-! ### A friend that is copied for the first time -/

theorem get?_addCopy (dir : Path) (s : Staged) (origin other : Path) :
    (s.addCopy dir origin).copies.get? other =
      if (other == origin) = true then some (dir.entry (copyName s.taken origin))
      else s.copies.get? other := by
  rw [← Path.isEq_compare]
  exact SortedMap.get?_insert ..

section AddCopy
variable (h : Ledger dir seen pairs s) {origin : Path} (hneeds : needsCopy origin = true)
  (hnone : s.copies.get? origin = none)
include h hnone

theorem Ledger.ne_of_mem {e : Path × Path} (he : e ∈ pairs) : ¬ (origin == e.1) = true := by
  intro hmatch
  rw [(h.get? origin e.2).2 ⟨e, he, hmatch, rfl⟩] at hnone
  cases hnone

include hneeds

/-- The new entry is not that of a friend seen before, so their places stay. -/
theorem Ledger.place_addCopy {other : Path} (hother : other ∈ seen) :
    (s.addCopy dir origin).place other = s.place other := by
  have hmiss : ¬ (other == origin) = true := by
    intro hmatch
    have hknown := h.complete other hother ((needsCopy_congr hmatch).trans hneeds)
    rw [SortedMap.get?_congr s.copies (Path.compare_eq_iff.2 hmatch), hnone] at hknown
    cases hknown
  rw [place, get?_addCopy, if_neg hmiss, place]

theorem Ledger.addCopy :
    Ledger dir (seen ++ [origin]) (pairs ++ [(origin, dir.entry (copyName s.taken origin))])
      (s.addCopy dir origin) where
  paths := by
    have hold : seen.map (s.addCopy dir origin).place = seen.map s.place :=
      List.map_inj_left.2 fun other hother => h.place_addCopy hneeds hnone hother
    have hnew : (s.addCopy dir origin).place origin = dir.entry (copyName s.taken origin) := by
      rw [place, get?_addCopy, if_pos (Path.beq_iff.2 rfl), Option.getD_some]
    rw [List.map_append, List.map_singleton, SortedSet.ofList_append_singleton, hold, hnew, ← h.paths]
    rfl
  steps := by
    rw [copySteps_append_singleton, ← h.steps, ← h.isEmpty]
    rfl
  isEmpty := by
    have hnonempty : (s.addCopy dir origin).copies.isEmpty = false := SortedMap.isEmpty_insert _ _ _
    simp [hnonempty]
  distinct := by
    rw [List.pairwise_append]
    refine ⟨h.distinct, List.pairwise_singleton _ _, fun a ha b hb hmatch => ?_⟩
    rw [List.mem_singleton.1 hb] at hmatch
    exact h.ne_of_mem hnone ha (Path.beq_iff.2 hmatch.symm)
  get? := by
    intro other copy
    simp only [get?_addCopy, List.mem_append, List.mem_singleton]
    split
    · rename_i hmatch
      constructor
      · intro hcopy
        exact ⟨_, .inr rfl, hmatch, Option.some.inj hcopy⟩
      · rintro ⟨e, he | rfl, hother, hcopy⟩
        · have hsame := (Path.beq_iff.1 hmatch).symm.trans (Path.beq_iff.1 hother)
          exact absurd (Path.beq_iff.2 hsame) (h.ne_of_mem hnone he)
        · exact congrArg some hcopy
    · rename_i hmiss
      rw [h.get?]
      constructor
      · rintro ⟨e, he, hother, hcopy⟩
        exact ⟨e, .inl he, hother, hcopy⟩
      · rintro ⟨e, he | rfl, hother, hcopy⟩
        · exact ⟨e, he, hother, hcopy⟩
        · exact absurd hother hmiss
  copied := by
    intro e he
    rcases List.mem_append.1 he with he | he
    · exact ⟨List.mem_append_left _ (h.copied e he).1, (h.copied e he).2⟩
    · rw [List.mem_singleton.1 he]
      exact ⟨by simp, hneeds, s.taken, rfl⟩
  complete := by
    intro other hother hcopy
    rw [get?_addCopy]
    split
    · rfl
    · rename_i hmatch
      rcases List.mem_append.1 hother with hother | hother
      · exact h.complete other hother hcopy
      · rw [List.mem_singleton.1 hother] at hmatch
        exact absurd (Path.beq_iff.2 rfl) hmatch

end AddCopy

/-! ### One friend after the other -/

theorem add_eq_addCopy {origin : Path} (hneeds : needsCopy origin = true) (hnone : s.copies.get? origin = none) :
    s.add dir origin = s.addCopy dir origin := by
  rw [Staged.add, if_pos hneeds, hnone]

theorem Ledger.add_eq_insert (h : Ledger dir seen pairs s) {origin : Path}
    (hknown : needsCopy origin = true → (s.copies.get? origin).isSome = true) :
    s.add dir origin = { s with paths := s.paths.insert (s.place origin) } := by
  rw [Staged.add]
  by_cases hneeds : needsCopy origin = true
  · obtain ⟨copy, hcopy⟩ := Option.isSome_iff_exists.1 (hknown hneeds)
    rw [if_pos hneeds, place, hcopy, Option.getD_some]
  · rw [if_neg hneeds, h.place_of_not_needsCopy (Bool.eq_false_iff.2 hneeds)]

theorem Ledger.add (h : Ledger dir seen pairs s) (origin : Path) :
    ∃ pairs', Ledger dir (seen ++ [origin]) pairs' (s.add dir origin) := by
  by_cases hknown : needsCopy origin = true → (s.copies.get? origin).isSome = true
  · rw [h.add_eq_insert hknown]
    exact ⟨pairs, h.insert hknown⟩
  · obtain ⟨hneeds, hnone⟩ := Classical.not_imp.1 hknown
    rw [Option.not_isSome_iff_eq_none] at hnone
    rw [add_eq_addCopy hneeds hnone]
    exact ⟨_, h.addCopy hneeds hnone⟩

/-- A friend that comes again is known, with its place among the paths to name. -/
theorem Ledger.add_eq_self (h : Ledger dir seen pairs s) {origin : Path} (hseen : origin ∈ seen) :
    s.add dir origin = s := by
  have hplace : s.paths.contains (s.place origin) = true := by
    rw [h.paths]
    exact SortedSet.contains_ofList_of_mem (List.mem_map_of_mem hseen)
  rw [h.add_eq_insert (h.complete origin hseen), SortedSet.insert_eq_self hplace]

theorem Ledger.foldl_add (h : Ledger dir seen pairs s) (friends : List Path) :
    ∃ pairs', Ledger dir (seen ++ friends) pairs' (friends.foldl (Staged.add dir) s) := by
  induction friends generalizing seen pairs s with
  | nil => exact ⟨pairs, (List.append_nil seen).symm ▸ h⟩
  | cons origin rest ih =>
    obtain ⟨pairs', hadd⟩ := h.add origin
    obtain ⟨pairs'', hrest⟩ := ih hadd
    rw [List.append_assoc] at hrest
    exact ⟨pairs'', hrest⟩

theorem foldl_add_firstOccurrences (dir : Path) (friends : List Path) :
    (firstOccurrences friends).foldl (Staged.add dir) {} = friends.foldl (Staged.add dir) {} := by
  induction friends using List.reverseRecOn with
  | nil => rfl
  | append_singleton front origin ih =>
    rw [List.foldl_concat, ← ih]
    by_cases hmem : origin ∈ front
    · obtain ⟨pairs, h⟩ := (Ledger.empty dir).foldl_add front
      rw [firstOccurrences_concat_of_mem hmem, ih]
      exact (h.add_eq_self hmem).symm
    · rw [firstOccurrences_concat_of_not_mem hmem, List.foldl_concat]

end

end Staged

/-! ### The friends of a unit -/

/-- Whether the path lies where a friend lies that cannot stand in the argument. -/
def IsCopied (root : Path) (friends : List Path) (p : Path) : Prop :=
  separator ∈ (root.absolutize p).spelling.toList ∧ root.absolutize p ∈ friends.map root.absolutize

section Stage
variable (root : Path) (friends : List Path) (dir : Path)

theorem exists_ledger_stage :
    ∃ pairs, Staged.Ledger (root.join (stagingDir dir)) (friends.map root.absolutize) pairs
      (stage root friends dir) :=
  (Staged.Ledger.empty _).foldl_add _

/-- The paths to name are the places of the friends, as entries of a classpath have theirs. -/
theorem paths_stage : (stage root friends dir).paths =
    .ofList (friends.map (Classpath.resolve root (stage root friends dir).copies)) := by
  obtain ⟨pairs, h⟩ := exists_ledger_stage root friends dir
  rw [h.paths, List.map_map]
  rfl

/-- A path without a separator keeps its place, whether it is a friend or not. -/
theorem resolve_eq_absolutize {p : Path} (hp : separator ∉ (root.absolutize p).spelling.toList) :
    Classpath.resolve root (stage root friends dir).copies p = root.absolutize p := by
  obtain ⟨pairs, h⟩ := exists_ledger_stage root friends dir
  exact h.place_of_not_needsCopy (Bool.eq_false_iff.2 (mt needsCopy_iff.1 hp))

/-- A friend with a separator has one copy, below a name without separators. -/
theorem copied_once {friend : Path} (hfriend : friend ∈ friends)
    (hcomma : separator ∈ (root.absolutize friend).spelling.toList) :
    (stage root friends dir).steps.filter (Step.isFileCopyOf (root.absolutize friend)) =
        [.copy (root.absolutize friend)
          (Classpath.resolve root (stage root friends dir).copies friend) .file] ∧
      ∃ taken, Classpath.resolve root (stage root friends dir).copies friend =
        (root.join (stagingDir dir)).entry (copyName taken (root.absolutize friend)) := by
  obtain ⟨pairs, h⟩ := exists_ledger_stage root friends dir
  obtain ⟨copy, hcopy⟩ := Option.isSome_iff_exists.1
    (h.complete _ (List.mem_map_of_mem hfriend) (needsCopy_iff.2 hcomma))
  have hplace : Classpath.resolve root (stage root friends dir).copies friend = copy := by
    rw [Classpath.resolve, hcopy, Option.getD_some]
  obtain ⟨⟨origin, copy'⟩, he, hmatch, rfl⟩ := (h.get? _ copy).1 hcopy
  obtain ⟨hseen, -, taken, htaken⟩ := h.copied _ he
  -- both are plain paths, so they match only as one text
  obtain ⟨other, -, rfl⟩ := List.mem_map.1 hseen
  dsimp only at hmatch htaken
  have hsame : root.absolutize friend = root.absolutize other := Path.absolutize_eq_of_beq hmatch
  rw [hplace, h.steps, filter_copySteps, hsame, filter_pairs_eq_singleton h.distinct he (Path.beq_iff.2 rfl),
    List.map_singleton]
  dsimp only
  exact ⟨rfl, taken, htaken⟩

/-- Only a path that lies where such a friend lies is replaced. -/
theorem resolve_cases (p : Path) :
    ¬ IsCopied root friends p ∧ Classpath.resolve root (stage root friends dir).copies p = root.absolutize p ∨
      IsCopied root friends p ∧ ∃ taken, Classpath.resolve root (stage root friends dir).copies p =
        (root.join (stagingDir dir)).entry (copyName taken (root.absolutize p)) := by
  by_cases hcopied : IsCopied root friends p
  · obtain ⟨friend, hfriend, hsame⟩ := List.mem_map.1 hcopied.2
    obtain ⟨taken, hcopy⟩ := (copied_once root friends dir hfriend (hsame ▸ hcopied.1)).2
    rw [Classpath.resolve, hsame] at hcopy
    exact .inr ⟨hcopied, taken, hcopy⟩
  · obtain ⟨pairs, h⟩ := exists_ledger_stage root friends dir
    have hnone : (stage root friends dir).copies.get? (root.absolutize p) = none := by
      rw [Option.eq_none_iff_forall_ne_some]
      intro copy hcopy
      obtain ⟨e, he, hmatch, -⟩ := (h.get? _ copy).1 hcopy
      obtain ⟨hseen, hneeds, -⟩ := h.copied e he
      obtain ⟨friend, hfriend, hplace⟩ := List.mem_map.1 hseen
      rw [← hplace] at hmatch hneeds
      have hsame : root.absolutize p = root.absolutize friend := Path.absolutize_eq_of_beq hmatch
      apply hcopied
      rw [IsCopied, hsame]
      exact ⟨needsCopy_iff.1 hneeds, List.mem_map_of_mem hfriend⟩
    refine .inl ⟨hcopied, ?_⟩
    rw [Classpath.resolve, hnone, Option.getD_none]

end Stage

end Friends

end JarPlan
