import JarPlan.Friends
import JarPlan.Proofs.Sorted.Set
import JarPlan.Proofs.Text.Decimal
import Mathlib.Algebra.Group.Nat.Defs
import Mathlib.Data.List.Perm.Subperm
/-!
# Free names

A name is claimed by trying the name itself and then numbered ones, until one is free. Nothing in the search says
that it ends. It does because candidates with different numbers are different texts, so of one candidate more than
there are names taken, one is free. The first of them is the name that `freshName` gives.
-/

namespace JarPlan.Friends

/-! ### Candidates -/

theorem toList_candidate_succ (name : String) (n : Nat) :
    (candidate name (n + 1)).toList = Text.decimal (n + 1) ++ '_' :: name.toList := by
  have hcandidate : candidate name (n + 1) = toString (n + 1) ++ "_" ++ name := rfl
  rw [hcandidate, String.toList_append, String.toList_append, Nat.toString_eq_ofList_toDigits, String.toList_ofList,
    List.append_assoc, Text.decimal]
  rfl

theorem candidate_injective (name : String) : Function.Injective (candidate name) := by
  have hlonger (n : Nat) : (candidate name 0).toList ≠ (candidate name (n + 1)).toList := by
    intro h
    have hlength := congrArg List.length h
    rw [toList_candidate_succ, candidate, List.length_append, List.length_cons] at hlength
    omega
  intro n m h
  have hchars := congrArg String.toList h
  cases n with
  | zero =>
    cases m with
    | zero => rfl
    | succ m => exact absurd hchars (hlonger m)
  | succ n =>
    cases m with
    | zero => exact absurd hchars.symm (hlonger n)
    | succ m =>
      rw [toList_candidate_succ, toList_candidate_succ, List.append_cancel_right_eq] at hchars
      exact Text.decimal_inj hchars

/-- Of one candidate more than there are names taken, one is free. -/
theorem exists_free_candidate (taken : SortedSet String) (name : String) :
    ∃ n ≤ taken.toList.length, candidate name n ∉ taken := by
  by_contra hall
  have hsubset : (List.range (taken.toList.length + 1)).map (candidate name) ⊆ taken.toList := by
    intro c hc
    obtain ⟨n, hn, rfl⟩ := List.mem_map.1 hc
    by_contra hfree
    exact hall ⟨n, Nat.le_of_lt_succ (List.mem_range.1 hn), hfree⟩
  have hnodup : ((List.range (taken.toList.length + 1)).map (candidate name)).Nodup :=
    List.nodup_range.map (candidate_injective name)
  have hle := (hnodup.subperm hsubset).length_le
  rw [List.length_map, List.length_range] at hle
  exact absurd hle (Nat.not_succ_le_self _)

/-! ### The first free candidate -/

/-- From `n` on, `k` is the first number whose candidate is free. -/
structure IsFirstFree (taken : SortedSet String) (name : String) (n k : Nat) : Prop where
  le : n ≤ k
  free : candidate name k ∉ taken
  passed : ∀ m, n ≤ m → m < k → candidate name m ∈ taken

section
variable {taken : SortedSet String} {name : String} {n k : Nat}

theorem IsFirstFree.unique {k' : Nat} (h : IsFirstFree taken name n k) (h' : IsFirstFree taken name n k') :
    k = k' := by
  rcases Nat.lt_trichotomy k k' with hlt | heq | hlt
  · exact absurd (h'.passed k h.le hlt) h.free
  · exact heq
  · exact absurd (h.passed k' h'.le hlt) h'.free

theorem isFirstFree_self (hfree : candidate name n ∉ taken) : IsFirstFree taken name n n where
  le := Nat.le_refl n
  free := hfree
  passed _ hn hm := absurd hn (Nat.not_le_of_lt hm)

/-- A candidate that is taken is passed over. -/
theorem isFirstFree_succ_iff (htaken : candidate name n ∈ taken) :
    IsFirstFree taken name (n + 1) k ↔ IsFirstFree taken name n k := by
  constructor
  · intro h
    refine ⟨Nat.le_of_succ_le h.le, h.free, fun m hn hm => ?_⟩
    rcases Nat.eq_or_lt_of_le hn with rfl | hlt
    · exact htaken
    · exact h.passed m hlt hm
  · intro h
    have hne : n ≠ k := by
      rintro rfl
      exact h.free htaken
    exact ⟨Nat.lt_of_le_of_ne h.le hne, h.free, fun m hn hm => h.passed m (Nat.le_of_succ_le hn) hm⟩

end

/-- What `freshName` gives is the first candidate that is free. -/
theorem exists_isFirstFree (taken : SortedSet String) (name : String) :
    ∃ k ≤ taken.toList.length, freshName taken name = candidate name k ∧ IsFirstFree taken name 0 k := by
  have hpass (n : Nat) : (!taken.toList.contains (candidate name n)) = true ↔ candidate name n ∉ taken := by
    rw [Bool.not_eq_true', List.contains_eq_mem, decide_eq_false_iff_not, SortedSet.mem_toList]
  rw [freshName, List.find?_map]
  cases hfind : (List.range (taken.toList.length + 1)).find?
      ((fun c => !taken.toList.contains c) ∘ candidate name) with
  | none =>
    obtain ⟨n, hn, hfree⟩ := exists_free_candidate taken name
    exact absurd ((hpass n).2 hfree) (List.find?_eq_none.1 hfind n (List.mem_range.2 (Nat.lt_succ_of_le hn)))
  | some k =>
    obtain ⟨hfree, hk, hpassed⟩ := List.find?_range_eq_some.1 hfind
    refine ⟨k, Nat.le_of_lt_succ (List.mem_range.1 hk), rfl, Nat.zero_le k, (hpass k).1 hfree, fun m _ hm => ?_⟩
    have htaken := hpassed m hm
    rwa [Function.comp_apply, Bool.not_not, List.contains_iff_mem, SortedSet.mem_toList] at htaken

/-- There is one candidate more than names that are taken, so the search does not fail. -/
theorem freshName_not_mem (taken : SortedSet String) (name : String) : freshName taken name ∉ taken := by
  obtain ⟨k, -, hfresh, hfirst⟩ := exists_isFirstFree taken name
  rw [hfresh]
  exact hfirst.free

theorem exists_freshName_eq (taken : SortedSet String) (name : String) :
    ∃ n, freshName taken name = candidate name n := by
  obtain ⟨n, -, hfresh, -⟩ := exists_isFirstFree taken name
  exact ⟨n, hfresh⟩

section Characters
variable {c : Char} (hdigit : c.isDigit = false) (hline : c ≠ '_')
include hdigit hline

/-- The numbers put in front of a name add digits and an underscore. -/
theorem not_mem_candidate {name : String} (hname : c ∉ name.toList) (n : Nat) :
    c ∉ (candidate name n).toList := by
  cases n with
  | zero => exact hname
  | succ n =>
    intro h
    rw [toList_candidate_succ, List.mem_append, List.mem_cons] at h
    rcases h with h | h | h
    · exact Text.not_mem_decimal hdigit _ h
    · exact hline h
    · exact hname h

theorem not_mem_freshName (taken : SortedSet String) {name : String} (hname : c ∉ name.toList) :
    c ∉ (freshName taken name).toList := by
  obtain ⟨n, hfresh⟩ := exists_freshName_eq taken name
  rw [hfresh]
  exact not_mem_candidate hdigit hline hname n

end Characters

/-! ### Claiming names in turns -/

/-- The numbers below this one fit in 32 bits with a sign. -/
def numberLimit : Nat := 2 ^ 31

/-- A name is claimed, from the candidate with number `n` on. Each turn puts its candidate in with the names taken.
One that was not there is the name claimed; otherwise the next number is tried, if there is one. -/
inductive Claims (name : String) : Nat → SortedSet String → String → SortedSet String → Prop
  | free {n : Nat} {taken : SortedSet String} (hfree : taken.contains (candidate name n) = false) :
    Claims name n taken (candidate name n) (taken.insert (candidate name n))
  | next {n : Nat} {taken after : SortedSet String} {claimed : String}
    (htaken : taken.contains (candidate name n) = true) (hroom : n + 1 < numberLimit)
    (hrest : Claims name (n + 1) (taken.insert (candidate name n)) claimed after) :
    Claims name n taken claimed after

section
variable {taken after : SortedSet String} {name claimed : String} {n k : Nat}

theorem Claims.exists_isFirstFree (h : Claims name n taken claimed after) :
    ∃ k, IsFirstFree taken name n k ∧ claimed = candidate name k ∧ after = taken.insert (candidate name k) := by
  induction h with
  | @free n taken hfree =>
    refine ⟨n, isFirstFree_self fun hmem => ?_, rfl, rfl⟩
    rw [SortedSet.contains_iff_mem.2 hmem] at hfree
    cases hfree
  | @next n taken after claimed htaken hroom hrest ih =>
    -- putting in a name that is there already leaves the set as it is
    rw [SortedSet.insert_eq_self htaken] at ih
    obtain ⟨k, hfirst, hclaimed, hafter⟩ := ih
    exact ⟨k, (isFirstFree_succ_iff (SortedSet.contains_iff_mem.1 htaken)).1 hfirst, hclaimed, hafter⟩

/-- Where there is room for the numbers, the search ends with the first free candidate. -/
theorem IsFirstFree.claims (h : IsFirstFree taken name n k) (hk : k < numberLimit) :
    Claims name n taken (candidate name k) (taken.insert (candidate name k)) := by
  -- on the number of turns that are left
  obtain ⟨d, rfl⟩ := Nat.exists_eq_add_of_le h.le
  induction d generalizing n with
  | zero => exact .free (SortedSet.contains_eq_false_of_not_mem h.free)
  | succ d ih =>
    have htaken := h.passed n (Nat.le_refl n) (by omega)
    have hcontains := SortedSet.contains_iff_mem.2 htaken
    have hsucc : n + (d + 1) = n + 1 + d := by omega
    rw [hsucc] at h hk ⊢
    refine .next hcontains (by omega) ?_
    rw [SortedSet.insert_eq_self hcontains]
    exact ih ((isFirstFree_succ_iff htaken).2 h) hk

end

/-- Whatever names are taken, as long as there are fewer than `2 ^ 31`, claiming a name ends, in one way. The name
claimed was not taken, and it alone is added. It is the name itself where that is free, and otherwise the one with the
least number that makes it free. -/
theorem claims_first_free_name (taken : SortedSet String) (hsize : taken.toList.length < 2 ^ 31) (name : String) :
    (∀ claimed after, Claims name 0 taken claimed after ↔
      claimed = freshName taken name ∧ after = taken.insert (freshName taken name)) ∧
    freshName taken name ∉ taken ∧
    (∀ other, other ∈ taken.insert (freshName taken name) ↔ other = freshName taken name ∨ other ∈ taken) ∧
    (name ∉ taken → freshName taken name = name) ∧
    (name ∈ taken → ∃ n, 1 ≤ n ∧ n ≤ taken.toList.length ∧
      freshName taken name = toString n ++ "_" ++ name ∧ toString n ++ "_" ++ name ∉ taken ∧
      ∀ m, 1 ≤ m → m < n → toString m ++ "_" ++ name ∈ taken) := by
  obtain ⟨k, hk, hfresh, hfirst⟩ := exists_isFirstFree taken name
  have hnew := freshName_not_mem taken name
  refine ⟨fun claimed after => ⟨fun h => ?_, ?_⟩, hnew, fun other => ?_, fun hname => ?_, fun hname => ?_⟩
  · obtain ⟨k', hfirst', hclaimed, hafter⟩ := h.exists_isFirstFree
    rw [hfresh, hfirst.unique hfirst']
    exact ⟨hclaimed, hafter⟩
  · rintro ⟨rfl, rfl⟩
    rw [hfresh]
    exact hfirst.claims (Nat.lt_of_le_of_lt hk hsize)
  · exact SortedSet.mem_insert_iff (SortedSet.contains_eq_false_of_not_mem hnew)
  · have hzero : IsFirstFree taken name 0 0 := isFirstFree_self hname
    rw [hfresh, hfirst.unique hzero, candidate]
  · cases k with
    | zero => exact absurd hname hfirst.free
    | succ k =>
      refine ⟨k + 1, Nat.succ_le_succ (Nat.zero_le k), hk, hfresh, hfirst.free, fun m hm hlt => ?_⟩
      obtain ⟨m, rfl⟩ := Nat.exists_eq_add_of_le' hm
      exact hfirst.passed (m + 1) (Nat.zero_le _) hlt

/-- Jars of one name, and one whose own name looks like that of a copy. -/
def namesakes : SortedSet String := .ofList ["lib.jar", "1_lib.jar", "3_lib.jar", "1_1_lib.jar"]

theorem namesakes_first_free_names :
    namesakes.toList.length < 2 ^ 31 ∧ "lib.jar" ∈ namesakes ∧ "0_lib.jar" ∉ namesakes ∧
      Claims "lib.jar" 0 namesakes "2_lib.jar" (namesakes.insert "2_lib.jar") ∧
      Claims "1_lib.jar" 0 namesakes "2_1_lib.jar" (namesakes.insert "2_1_lib.jar") ∧
      freshName namesakes "0_lib.jar" = "0_lib.jar" := by
  have hsize : namesakes.toList.length < 2 ^ 31 := by decide +kernel
  have hother : "0_lib.jar" ∉ namesakes := by decide +kernel
  have hlib : freshName namesakes "lib.jar" = "2_lib.jar" := by decide +kernel
  have hnumbered : freshName namesakes "1_lib.jar" = "2_1_lib.jar" := by decide +kernel
  have hclaims := (claims_first_free_name namesakes hsize "lib.jar").1 "2_lib.jar" (namesakes.insert "2_lib.jar")
  have hclaimsNumbered :=
    (claims_first_free_name namesakes hsize "1_lib.jar").1 "2_1_lib.jar" (namesakes.insert "2_1_lib.jar")
  obtain ⟨-, -, -, hfree, -⟩ := claims_first_free_name namesakes hsize "0_lib.jar"
  rw [hlib] at hclaims
  rw [hnumbered] at hclaimsNumbered
  exact ⟨hsize, by decide +kernel, hother, hclaims.2 ⟨rfl, rfl⟩, hclaimsNumbered.2 ⟨rfl, rfl⟩, hfree hother⟩

end JarPlan.Friends
