import JarPlan.Sorted.Set
import Mathlib.Data.List.Pairwise
import Mathlib.Data.List.Sort
/-!
# What a sorted set holds

A set keeps one of the elements that tie. So what is added need not be found in the set itself, but
something that ties with it is, and nothing comes in that was not added. This is all there is to say of
a set whose elements are read up to ties, and it is the same for sets that keep the first of them and
for sets that keep the last.
-/

namespace JarPlan

/-- A merge that ties with the new element loses neither it nor what was there. -/
theorem exists_tie_upsert_iff {α : Type} {cmp : α → α → Ordering} [Std.TransCmp cmp]
    {merge : α → α → α} (ties : ∀ old new, cmp new old = .eq → cmp (merge old new) new = .eq)
    (new a : α) (l : List α) :
    (∃ b ∈ upsert cmp merge new l, cmp a b = .eq) ↔ cmp a new = .eq ∨ ∃ b ∈ l, cmp a b = .eq := by
  induction l with
  | nil => simp [upsert]
  | cons old rest ih =>
    rw [upsert]
    split
    · simp only [List.exists_mem_cons_iff]
    · rename_i htie
      have hmerge : cmp a (merge old new) = cmp a new := Std.TransCmp.congr_right (ties old new htie)
      have hold : cmp a old = cmp a new := (Std.TransCmp.congr_right htie).symm
      simp only [List.exists_mem_cons_iff, hmerge, hold, or_self_left]
    · simp only [List.exists_mem_cons_iff, ih, or_left_comm]

namespace SortedSet

variable {α : Type} [Ord α] {s : SortedSet α} {a b : α}

theorem contains_iff : s.contains a = true ↔ ∃ b ∈ s, compare a b = .eq := by
  simp only [contains, List.any_eq_true, Ordering.isEq_iff_eq_eq, mem_toList]

theorem contains_empty : (∅ : SortedSet α).contains a = false := rfl

/-! ### Adding one after the other -/

section Fold
variable {add : SortedSet α → α → SortedSet α}

theorem contains_foldl
    (hadd : ∀ s b, (add s b).contains a = true ↔ compare a b = .eq ∨ s.contains a = true)
    (s : SortedSet α) (l : List α) :
    (l.foldl add s).contains a = true ↔ s.contains a = true ∨ ∃ b ∈ l, compare a b = .eq := by
  induction l generalizing s with
  | nil => simp
  | cons b rest ih => rw [List.foldl_cons, ih, hadd, List.exists_mem_cons_iff, or_assoc, or_left_comm]

theorem mem_of_mem_foldl (hadd : ∀ s b, a ∈ add s b → a = b ∨ a ∈ s) {s : SortedSet α} {l : List α}
    (h : a ∈ l.foldl add s) : a ∈ s ∨ a ∈ l := by
  induction l generalizing s with
  | nil => exact .inl h
  | cons b rest ih =>
    rcases ih h with h | h
    · rcases hadd s b h with rfl | h
      · exact .inr List.mem_cons_self
      · exact .inl h
    · exact .inr (List.mem_cons_of_mem b h)

end Fold

/-- Where the list of a set is cut at an element, all other elements are on the side that the order says. -/
theorem cases_of_split {before after : List α} (hsplit : s.toList = before ++ a :: after) (hb : b ∈ s) :
    (b ∈ before ∧ compare b a = .lt) ∨ b = a ∨ (b ∈ after ∧ compare a b = .lt) := by
  have hascending := s.ascending
  rw [hsplit] at hascending
  obtain ⟨-, hrest, hfront⟩ := List.pairwise_append.1 hascending
  rw [← mem_toList, hsplit, List.mem_append, List.mem_cons] at hb
  rcases hb with hb | hb | hb
  · exact .inl ⟨hb, hfront b hb a List.mem_cons_self⟩
  · exact .inr (.inl hb)
  · exact .inr (.inr ⟨hb, (List.pairwise_cons.1 hrest).1 b hb⟩)

variable [Std.TransOrd α]

/-- The first element found is the least of those looked for. -/
theorem isLE_of_find? {p : α → Bool} (h : s.toList.find? p = some a) (hb : b ∈ s) (hpb : p b = true) :
    (compare a b).isLE = true := by
  obtain ⟨-, before, after, hsplit, hbefore⟩ := List.find?_eq_some_iff_append.1 h
  rcases cases_of_split hsplit hb with ⟨hb, -⟩ | rfl | ⟨-, hlt⟩
  · have hpass := hbefore b hb
    rw [hpb] at hpass
    cases hpass
  · have hself : compare b b = .eq := Std.ReflCmp.compare_self
    rw [hself]
    rfl
  · rw [hlt]
    rfl

/-! ### Adding one element -/

theorem contains_insert : (s.insert b).contains a = true ↔ compare a b = .eq ∨ s.contains a = true := by
  rw [contains_iff, contains_iff]
  exact exists_tie_upsert_iff (fun _ _ tie => Std.OrientedCmp.eq_symm tie) b a s.toList

theorem contains_put : (s.put b).contains a = true ↔ compare a b = .eq ∨ s.contains a = true := by
  rw [contains_iff, contains_iff]
  exact exists_tie_upsert_iff (fun _ _ _ => Std.ReflCmp.compare_self) b a s.toList

theorem mem_of_mem_put (h : b ∈ s.put a) : b = a ∨ b ∈ s := by
  obtain rfl | old | ⟨c, -, -, rfl⟩ := mem_of_mem_upsert h
  · exact .inl rfl
  · exact .inr old
  · exact .inl rfl

/-! ### Sets made of lists -/

theorem contains_ofList (l : List α) : (ofList l).contains a = true ↔ ∃ b ∈ l, compare a b = .eq := by
  rw [ofList, insertAll, contains_foldl fun _ _ => contains_insert, contains_empty]
  simp

theorem contains_collect (l : List α) : (collect l).contains a = true ↔ ∃ b ∈ l, compare a b = .eq := by
  rw [collect, contains_foldl fun _ _ => contains_put, contains_empty]
  simp

theorem contains_ofList_of_mem {l : List α} (h : a ∈ l) : (ofList l).contains a = true :=
  (contains_ofList l).2 ⟨a, h, Std.ReflCmp.compare_self⟩

theorem contains_collect_of_mem {l : List α} (h : a ∈ l) : (collect l).contains a = true :=
  (contains_collect l).2 ⟨a, h, Std.ReflCmp.compare_self⟩

theorem mem_of_mem_ofList {l : List α} (h : a ∈ ofList l) : a ∈ l :=
  (mem_of_mem_foldl (fun _ _ => mem_of_mem_insert) h).resolve_left List.not_mem_nil

theorem mem_of_mem_collect {l : List α} (h : a ∈ collect l) : a ∈ l :=
  (mem_of_mem_foldl (fun _ _ => mem_of_mem_put) h).resolve_left List.not_mem_nil

/-! ### Sets with the same elements -/

theorem compare_self_ne_lt (a : α) : compare a a ≠ .lt := by
  have hself : compare a a = .eq := Std.ReflCmp.compare_self
  rw [hself]
  exact Ordering.noConfusion

theorem nodup_toList (s : SortedSet α) : s.toList.Nodup := by
  refine List.Pairwise.imp (fun {a b} hlt heq => ?_) s.ascending
  rw [heq] at hlt
  exact compare_self_ne_lt b hlt

/-- The order of the elements is given by the elements. -/
theorem eq_of_mem_iff {t : SortedSet α} (h : ∀ a, a ∈ s ↔ a ∈ t) : s = t := by
  have hirrefl : Std.Irrefl fun a b : α => compare a b = .lt := ⟨compare_self_ne_lt⟩
  have hantisymm : Std.Antisymm fun a b : α => compare a b = .lt := by
    constructor
    intro a b hab hba
    rw [Std.OrientedCmp.gt_iff_lt.2 hba] at hab
    cases hab
  exact ext (List.Pairwise.eq_of_mem_iff s.ascending t.ascending h)

omit [Std.TransOrd α] in
/-- Where only equal elements tie, none gets lost. -/
theorem mem_iff_of_contains {l : List α} (hcontains : ∀ a ∈ l, s.contains a = true) (hmem : ∀ a ∈ s, a ∈ l)
    (hties : ∀ a ∈ l, ∀ b ∈ l, compare a b = .eq → a = b) : a ∈ s ↔ a ∈ l := by
  constructor
  · exact hmem a
  · intro ha
    obtain ⟨b, hb, htie⟩ := contains_iff.1 (hcontains a ha)
    rw [hties a ha b (hmem b hb) htie]
    exact hb

theorem mem_collect_iff {l : List α} (hties : ∀ a ∈ l, ∀ b ∈ l, compare a b = .eq → a = b) :
    a ∈ collect l ↔ a ∈ l :=
  mem_iff_of_contains (fun _ => contains_collect_of_mem) (fun _ => mem_of_mem_collect) hties

theorem mem_ofList_iff {l : List α} (hties : ∀ a ∈ l, ∀ b ∈ l, compare a b = .eq → a = b) :
    a ∈ ofList l ↔ a ∈ l :=
  mem_iff_of_contains (fun _ => contains_ofList_of_mem) (fun _ => mem_of_mem_ofList) hties

/-- No two elements of a set tie. -/
theorem eq_of_tie (ha : a ∈ s) (hb : b ∈ s) (htie : compare a b = .eq) : a = b := by
  by_contra hne
  have hsymm : Std.Symm fun a b : α => compare a b ≠ .eq := ⟨fun _ _ h g => h (Std.OrientedCmp.eq_symm g)⟩
  have hpair : s.toList.Pairwise fun a b => compare a b ≠ .eq := s.ascending.imp fun hlt htie => by
    rw [hlt] at htie
    cases htie
  exact hpair.forall ha hb hne htie

/-- What ties with no element comes in and leaves all of them there. -/
theorem mem_insert_iff (h : s.contains a = false) : b ∈ s.insert a ↔ b = a ∨ b ∈ s := by
  apply mem_upsert_iff
  intro c hc htie
  rw [contains_iff.2 ⟨c, hc, htie⟩] at h
  cases h

/-- What ties with an element is not added. -/
theorem insert_eq_self (h : s.contains a = true) : s.insert a = s :=
  ext (upsert_eq_self s.ascending (contains_iff.1 h))

/-- A set is made of its own elements. -/
theorem ofList_toList (s : SortedSet α) : ofList s.toList = s :=
  eq_of_mem_iff fun _ => mem_ofList_iff fun _ ha _ hb => eq_of_tie ha hb

/-- Where only equal elements tie, neither the order of a list nor its repetitions make a difference. -/
theorem collect_congr {l l' : List α} (hmem : ∀ a, a ∈ l ↔ a ∈ l')
    (hties : ∀ a ∈ l, ∀ b ∈ l, compare a b = .eq → a = b) : collect l = collect l' := by
  have hties' : ∀ a ∈ l', ∀ b ∈ l', compare a b = .eq → a = b := fun a ha b hb =>
    hties a ((hmem a).2 ha) b ((hmem b).2 hb)
  apply eq_of_mem_iff
  intro a
  rw [mem_collect_iff hties, mem_collect_iff hties', hmem]

omit [Std.TransOrd α] in
/-- Where only equal elements tie, a set has what it contains. -/
theorem contains_iff_mem [Std.LawfulEqOrd α] : s.contains a = true ↔ a ∈ s := by
  rw [contains_iff]
  constructor
  · rintro ⟨b, hb, htie⟩
    rwa [Std.LawfulEqOrd.eq_of_compare htie]
  · intro ha
    exact ⟨a, ha, Std.ReflCmp.compare_self⟩

omit [Std.TransOrd α] in
theorem contains_eq_false_of_not_mem [Std.LawfulEqOrd α] (h : a ∉ s) : s.contains a = false :=
  Bool.eq_false_iff.2 (mt contains_iff_mem.1 h)

theorem ofList_append_singleton (l : List α) (a : α) : ofList (l ++ [a]) = (ofList l).insert a := by
  rw [ofList, insertAll, List.foldl_append]
  rfl

end SortedSet

end JarPlan
