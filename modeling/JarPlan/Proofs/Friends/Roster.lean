import JarPlan.Proofs.Friends.PlainCopies
/-!
# The friends that are copied

The table of copies has an entry for every friend with a comma and for no other. Staging lists them in the order
in which they first occur, which the table, being sorted, does not keep. All copies lie in one directory, under
names that are free when they are taken, so no two copies match. A friend that comes again adds nothing, so all
that staging makes depends on the places of the friends, each taken once.
-/

namespace JarPlan

open Target (IsProper)

namespace Friends

/-! ### The table as it grows -/

namespace Staged

/-- What holds besides when the friends are plain: the copies are listed in order, and their names are taken. -/
structure Roster (dir : Path) (seen : List Path) (pairs : List (Path × Path)) (s : Staged) : Prop extends
    Ledger dir seen pairs s where
  plain : ∀ p ∈ seen, p.normalize = p
  origins : pairs.map Prod.fst = firstOccurrences (seen.filter needsCopy)
  entries : ∀ e, e ∈ s.copies.entries ↔ e ∈ pairs
  named : ∀ e ∈ pairs, ∃ name ∈ s.taken, IsProper name ∧ separator ∉ name.toList ∧ e.2 = dir.entry name
  apart : pairs.Pairwise fun e e' => e.2.components ≠ e'.2.components

variable {dir : Path} {seen : List Path} {pairs : List (Path × Path)} {s : Staged}

theorem Roster.empty (dir : Path) : Roster dir [] [] {} where
  toLedger := .empty dir
  plain := by simp
  origins := rfl
  entries := fun _ => Iff.rfl
  named := by simp
  apart := .nil

theorem forall_plain_concat {origin : Path} (hseen : ∀ p ∈ seen, p.normalize = p)
    (hplain : origin.normalize = origin) : ∀ p ∈ seen ++ [origin], p.normalize = p :=
  List.forall_mem_append.2 ⟨hseen, List.forall_mem_singleton.2 hplain⟩

section Add
variable (h : Roster dir seen pairs s) {origin : Path} (hplain : origin.normalize = origin)
include h hplain

/-- The table knows a plain path by its text. -/
theorem Roster.mem_seen_of_isSome (hsome : (s.copies.get? origin).isSome = true) : origin ∈ seen := by
  obtain ⟨copy, hcopy⟩ := Option.isSome_iff_exists.1 hsome
  obtain ⟨e, he, hmatch, -⟩ := (h.get? origin copy).1 hcopy
  have hseen := (h.copied e he).1
  have hsame : origin = e.1 := by
    rw [← hplain, ← h.plain e.1 hseen]
    exact Path.normalize_congr hmatch
  rwa [hsame]

/-- A friend that needs no copy, or has one, leaves the list of copies as it is. -/
theorem Roster.insert (hknown : needsCopy origin = true → (s.copies.get? origin).isSome = true) :
    Roster dir (seen ++ [origin]) pairs { s with paths := s.paths.insert (s.place origin) } where
  toLedger := h.toLedger.insert hknown
  plain := forall_plain_concat h.plain hplain
  origins := by
    rw [List.filter_append]
    by_cases hneeds : needsCopy origin = true
    · have hmem : origin ∈ seen.filter needsCopy :=
        List.mem_filter.2 ⟨h.mem_seen_of_isSome hplain (hknown hneeds), hneeds⟩
      rw [List.filter_singleton, hneeds, cond_true, firstOccurrences_concat_of_mem hmem, h.origins]
    · rw [List.filter_singleton, Bool.eq_false_iff.2 hneeds, cond_false, List.append_nil, h.origins]
  entries := h.entries
  named := h.named
  apart := h.apart

variable (hneeds : needsCopy origin = true) (hnone : s.copies.get? origin = none)
include hneeds hnone

/-- A new copy has a name that no other has. -/
theorem Roster.addCopy :
    Roster dir (seen ++ [origin]) (pairs ++ [(origin, dir.entry (copyName s.taken origin))])
      (s.addCopy dir origin) where
  toLedger := h.toLedger.addCopy hneeds hnone
  plain := forall_plain_concat h.plain hplain
  origins := by
    have hnew : origin ∉ seen.filter needsCopy := by
      intro hmem
      have hsome := h.complete origin (List.mem_filter.1 hmem).1 hneeds
      rw [hnone] at hsome
      cases hsome
    rw [List.filter_append, List.filter_singleton, hneeds, cond_true,
      firstOccurrences_concat_of_not_mem hnew, ← h.origins, List.map_append, List.map_singleton]
  entries := by
    intro e
    rw [List.mem_append, List.mem_singleton, ← h.entries, or_comm]
    exact SortedMap.mem_entries_insert_iff hnone
  named := by
    have htaken (name : String) : name ∈ (s.addCopy dir origin).taken ↔
        name = copyName s.taken origin ∨ name ∈ s.taken :=
      SortedSet.mem_insert_iff (SortedSet.contains_eq_false_of_not_mem (freshName_not_mem _ _))
    intro e he
    rcases List.mem_append.1 he with he | he
    · obtain ⟨name, hold, hname⟩ := h.named e he
      exact ⟨name, (htaken name).2 (.inr hold), hname⟩
    · obtain ⟨file, hfile⟩ := exists_fileName_of_needsCopy hplain hneeds
      rw [List.mem_singleton.1 he]
      exact ⟨copyName s.taken origin, (htaken _).2 (.inl rfl), isProper_copyName s.taken hfile,
        separator_not_mem_copyName s.taken origin, rfl⟩
  apart := by
    rw [List.pairwise_append]
    refine ⟨h.apart, List.pairwise_singleton _ _, fun e he e' he' hsame => ?_⟩
    obtain ⟨name, htaken, hproper, -, hcopy⟩ := h.named e he
    obtain ⟨file, hfile⟩ := exists_fileName_of_needsCopy hplain hneeds
    have hnew := isProper_copyName s.taken hfile
    rw [List.mem_singleton.1 he', hcopy, Path.components_entry dir (Path.components_mk hproper.1 hproper.2),
      Path.components_entry dir (Path.components_mk hnew.1 hnew.2), List.append_cancel_left_eq] at hsame
    cases hsame
    exact freshName_not_mem _ _ htaken

end Add

/-! ### One friend after the other -/

theorem Roster.add (h : Roster dir seen pairs s) {origin : Path} (hplain : origin.normalize = origin) :
    ∃ pairs', Roster dir (seen ++ [origin]) pairs' (s.add dir origin) := by
  by_cases hknown : needsCopy origin = true → (s.copies.get? origin).isSome = true
  · rw [h.add_eq_insert hknown]
    exact ⟨pairs, h.insert hplain hknown⟩
  · obtain ⟨hneeds, hnone⟩ := Classical.not_imp.1 hknown
    rw [Option.not_isSome_iff_eq_none] at hnone
    rw [add_eq_addCopy hneeds hnone]
    exact ⟨_, h.addCopy hplain hneeds hnone⟩

theorem Roster.foldl_add (h : Roster dir seen pairs s) {friends : List Path}
    (hplain : ∀ p ∈ friends, p.normalize = p) :
    ∃ pairs', Roster dir (seen ++ friends) pairs' (friends.foldl (Staged.add dir) s) := by
  induction friends generalizing seen pairs s with
  | nil => exact ⟨pairs, (List.append_nil seen).symm ▸ h⟩
  | cons origin rest ih =>
    obtain ⟨horigin, hrest⟩ := List.forall_mem_cons.1 hplain
    obtain ⟨pairs', hadd⟩ := h.add horigin
    obtain ⟨pairs'', hroster⟩ := ih hadd hrest
    rw [List.append_assoc] at hroster
    exact ⟨pairs'', hroster⟩

/-- Copies that match are one copy of one friend. -/
theorem Roster.eq_of_beq (h : Roster dir seen pairs s) {e e' : Path × Path} (he : e ∈ pairs) (he' : e' ∈ pairs)
    (hmatch : (e.2 == e'.2) = true) : e = e' := by
  by_contra hne
  have hsymm : Std.Symm fun e e' : Path × Path => e.2.components ≠ e'.2.components := ⟨fun _ _ => Ne.symm⟩
  exact h.apart.forall he he' hne (Path.beq_iff.1 hmatch)

/-- The friends in the table are those with a separator. -/
theorem Roster.mem_origins_iff (h : Roster dir seen pairs s) (origin : Path) :
    (∃ copy, (origin, copy) ∈ pairs) ↔ origin ∈ seen ∧ separator ∈ origin.spelling.toList := by
  have horigins : origin ∈ pairs.map Prod.fst ↔ origin ∈ seen ∧ separator ∈ origin.spelling.toList := by
    rw [h.origins, mem_firstOccurrences, List.mem_filter, needsCopy_iff]
  rw [← horigins, List.mem_map]
  constructor
  · rintro ⟨copy, he⟩
    exact ⟨(origin, copy), he, rfl⟩
  · rintro ⟨⟨_, copy⟩, he, rfl⟩
    exact ⟨copy, he⟩

end Staged

/-! ### All friends -/

theorem exists_roster_stage (root : Path) (friends : List Path) (dir : Path) :
    ∃ pairs, Staged.Roster (root.join (stagingDir dir)) (friends.map root.absolutize) pairs
      (stage root friends dir) := by
  refine (Staged.Roster.empty _).foldl_add fun p hp => ?_
  obtain ⟨friend, -, rfl⟩ := List.mem_map.1 hp
  exact root.normalize_absolutize friend

/-- The table has an entry for every friend with a comma and no other, and no two copies match. The steps make the
directory, if there is an entry, and then the copies, in the order in which the friends first occur. The directory
lies below the root unless it is given from the top, and a copy is an entry of it, under a name without commas.
What is named to the compiler are the friends without commas and the copies. Friends that are repeated, or spelled
in another way, make no difference. -/
theorem stage_copies_friends_once (root : Path) (friends : List Path) (dir : Path) :
    (∀ origin, (∃ copy, (origin, copy) ∈ (stage root friends dir).copies.entries) ↔
      origin ∈ friends.map root.absolutize ∧ separator ∈ origin.spelling.toList) ∧
    (∀ e ∈ (stage root friends dir).copies.entries, ∀ e' ∈ (stage root friends dir).copies.entries,
      (e.2 == e'.2) = true → e = e') ∧
    (∃ pairs, pairs.map Prod.fst = firstOccurrences ((friends.map root.absolutize).filter needsCopy) ∧
      (∀ e, e ∈ pairs ↔ e ∈ (stage root friends dir).copies.entries) ∧
      (stage root friends dir).steps = copySteps (root.join (stagingDir dir)) pairs) ∧
    (dir.isAbsolute = false → (root.join (stagingDir dir)).startsWith root = true) ∧
    (∀ e ∈ (stage root friends dir).copies.entries, ∃ name, e.2.fileName? = some name ∧
      separator ∉ name.toList ∧ e.2.components = (root.join (stagingDir dir)).components ++ [.name name]) ∧
    (∀ p ∈ (stage root friends dir).paths, (p ∈ friends.map root.absolutize ∧ separator ∉ p.spelling.toList) ∨
      ∃ origin, (origin, p) ∈ (stage root friends dir).copies.entries) ∧
    (∀ p, ((p ∈ friends.map root.absolutize ∧ separator ∉ p.spelling.toList) ∨
      ∃ origin, (origin, p) ∈ (stage root friends dir).copies.entries) →
        (stage root friends dir).paths.contains p = true) ∧
    ∀ friends', firstOccurrences (friends'.map root.absolutize) = firstOccurrences (friends.map root.absolutize) →
      stage root friends' dir = stage root friends dir := by
  obtain ⟨pairs, h⟩ := exists_roster_stage root friends dir
  simp only [h.entries]
  refine ⟨h.mem_origins_iff, fun e he e' he' => h.eq_of_beq he he', ⟨pairs, h.origins, fun _ => Iff.rfl, h.steps⟩,
    fun hrelative => ?_, fun e he => ?_, fun p hp => ?_, fun p hp => ?_, fun friends' hsame => ?_⟩
  · exact Path.join_startsWith root ((isAbsolute_stagingDir dir).trans hrelative)
  · obtain ⟨name, -, hproper, hsep, hcopy⟩ := h.named e he
    have hcomponents := Path.components_mk hproper.1 hproper.2
    rw [hcopy]
    exact ⟨name, Path.fileName?_entry _ hcomponents, hsep, Path.components_entry _ hcomponents⟩
  · rw [h.paths] at hp
    exact (h.mem_places_iff p).1 (SortedSet.mem_of_mem_ofList hp)
  · rw [h.paths]
    exact SortedSet.contains_ofList_of_mem ((h.mem_places_iff p).2 hp)
  · rw [stage, ← Staged.foldl_add_firstOccurrences, hsame, Staged.foldl_add_firstOccurrences, stage]

/-- Two jars of one name and one that needs no copy. -/
def clashing : List Path := [⟨"y,2/lib.jar"⟩, ⟨"/repo/x,1/lib.jar"⟩, ⟨"b.jar"⟩]

/-- The same jars, some of them again and spelled in other ways. -/
def clashingAgain : List Path :=
  [⟨"/repo/./y,2/lib.jar"⟩, ⟨"y,2/lib.jar"⟩, ⟨"x,1/z/../lib.jar"⟩, ⟨"b.jar"⟩, ⟨"x,1/lib.jar"⟩, ⟨"./b.jar"⟩]

theorem clashing_copied_once :
    (stage ⟨"/repo"⟩ clashing ⟨"out/__lib#a,b__"⟩).copies.entries =
        [(⟨"/repo/x,1/lib.jar"⟩, ⟨"/repo/out/__lib#a__b__/1_lib.jar"⟩),
          (⟨"/repo/y,2/lib.jar"⟩, ⟨"/repo/out/__lib#a__b__/lib.jar"⟩)] ∧
      (Path.join ⟨"/repo"⟩ (stagingDir ⟨"out/__lib#a,b__"⟩)).startsWith ⟨"/repo"⟩ = true ∧
      stage ⟨"/repo"⟩ clashingAgain ⟨"out/__lib#a,b__"⟩ = stage ⟨"/repo"⟩ clashing ⟨"out/__lib#a,b__"⟩ := by
  obtain ⟨-, -, -, hbelow, -, -, -, hagain⟩ := stage_copies_friends_once ⟨"/repo"⟩ clashing ⟨"out/__lib#a,b__"⟩
  exact ⟨by decide +kernel, hbelow (by decide +kernel), hagain clashingAgain (by decide +kernel)⟩

end Friends

end JarPlan
