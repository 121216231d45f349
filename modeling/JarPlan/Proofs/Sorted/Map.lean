import JarPlan.Sorted.Map
import Mathlib.Data.List.Pairwise
import Mathlib.Data.List.Perm.Subperm
/-!
# What a sorted map holds

Looking up sees the last value set at a key, and the entries are what looking up gives. Entries that come in
ascending order are put one behind the other, so a map is what its own entries make when they are set from
left to right.
-/

namespace JarPlan

/-- An element above all others comes last. -/
theorem upsert_eq_append {α : Type} {cmp : α → α → Ordering} [Std.OrientedCmp cmp] {merge : α → α → α}
    {new : α} {l : List α} (h : ∀ a ∈ l, cmp a new = .lt) : upsert cmp merge new l = l ++ [new] := by
  induction l with
  | nil => rfl
  | cons old rest ih =>
    obtain ⟨hold, hrest⟩ := List.forall_mem_cons.1 h
    have hgt : cmp new old = .gt := Std.OrientedCmp.gt_iff_lt.2 hold
    rw [upsert, hgt]
    simp only [ih hrest, List.cons_append]

theorem upsert_ne_nil {α : Type} (cmp : α → α → Ordering) (merge : α → α → α) (new : α) (l : List α) :
    upsert cmp merge new l ≠ [] := by
  cases l with
  | nil => exact List.cons_ne_nil _ _
  | cons old rest =>
    rw [upsert]
    split <;> exact List.cons_ne_nil _ _

theorem length_upsert_le {α : Type} (cmp : α → α → Ordering) (merge : α → α → α) (new : α) (l : List α) :
    (upsert cmp merge new l).length ≤ l.length + 1 := by
  induction l with
  | nil => exact Nat.le_refl _
  | cons old rest ih =>
    rw [upsert]
    split
    · exact Nat.le_refl _
    · exact Nat.le_succ _
    · exact Nat.succ_le_succ ih

namespace SortedMap

variable {κ ν : Type} [Ord κ]

@[simp] theorem get?_empty (k : κ) : (∅ : SortedMap κ ν).get? k = none := rfl

/-- There are at least as many entries as different keys. -/
theorem length_le_size {m : SortedMap κ ν} {keys : List κ} (hnodup : keys.Nodup)
    (hkeys : ∀ k ∈ keys, ∃ v, (k, v) ∈ m.entries) : keys.length ≤ m.size := by
  have hsubset : keys ⊆ m.entries.map Prod.fst := by
    intro k hk
    obtain ⟨v, hentry⟩ := hkeys k hk
    exact List.mem_map_of_mem hentry
  have hlength := (hnodup.subperm hsubset).length_le
  rwa [List.length_map] at hlength

variable [Std.TransOrd κ]

theorem get?_congr (m : SortedMap κ ν) {k k' : κ} (h : compare k k' = .eq) : m.get? k = m.get? k' := by
  have hsame : (fun e : κ × ν => (compare k e.1).isEq) = fun e => (compare k' e.1).isEq := by
    funext e
    rw [Std.TransCmp.congr_left h]
  rw [get?, hsame, get?]

theorem isEmpty_insert (m : SortedMap κ ν) (k : κ) (v : ν) : (m.insert k v).isEmpty = false :=
  List.isEmpty_eq_false_iff.2 (upsert_ne_nil _ _ _ _)

theorem find?_upsert (k k' : κ) (v : ν) (l : List (κ × ν)) :
    ((upsert (compareOn Prod.fst) (fun old new => (old.1, new.2)) (k, v) l).find?
        fun e => (compare k' e.1).isEq).map Prod.snd =
      if (compare k' k).isEq then some v
      else (l.find? fun e => (compare k' e.1).isEq).map Prod.snd := by
  induction l with
  | nil => by_cases h : (compare k' k).isEq <;> simp [upsert, h]
  | cons old rest ih =>
    rw [upsert]
    split
    · by_cases h : (compare k' k).isEq <;> simp [h]
    · rename_i htie
      have hsame : compare k' old.1 = compare k' k :=
        (Std.TransCmp.congr_right (show compare k old.1 = .eq from htie)).symm
      by_cases h : (compare k' k).isEq <;> simp [h, hsame]
    · -- the search may stop at `old`, whose key is then not the new one, or go on in the rest
      rename_i hgt
      by_cases hold : (compare k' old.1).isEq
      · have hne : ¬ (compare k' k).isEq := by
          intro hk
          have hother : compare k old.1 = compare k' old.1 :=
            Std.TransCmp.congr_left (Std.OrientedCmp.eq_symm (Ordering.isEq_iff_eq_eq.1 hk))
          rw [show compare k old.1 = .gt from hgt] at hother
          rw [← hother] at hold
          cases hold
        simp [hold, hne]
      · simpa [hold] using ih

theorem get?_insert (m : SortedMap κ ν) (k k' : κ) (v : ν) :
    (m.insert k v).get? k' = if (compare k' k).isEq then some v else m.get? k' :=
  find?_upsert k k' v m.entries

theorem size_insertAll_le (m : SortedMap κ ν) (l : List (κ × ν)) :
    (m.insertAll l).size ≤ m.size + l.length := by
  induction l generalizing m with
  | nil => exact Nat.le_refl _
  | cons e rest ih =>
    have hinsert : (m.insert e.1 e.2).size ≤ m.size + 1 := length_upsert_le _ _ _ _
    have hrest := ih (m.insert e.1 e.2)
    rw [insertAll, List.foldl_cons, List.length_cons]
    rw [insertAll] at hrest
    omega

theorem size_ofList_le (l : List (κ × ν)) : (ofList l).size ≤ l.length := by
  have hsize := size_insertAll_le (∅ : SortedMap κ ν) l
  have hempty : (∅ : SortedMap κ ν).size = 0 := rfl
  rwa [hempty, Nat.zero_add] at hsize

/-- There is one entry for a key. -/
theorem eq_of_mem_entries {m : SortedMap κ ν} {e e' : κ × ν} (he : e ∈ m.entries) (he' : e' ∈ m.entries)
    (htie : compare e.1 e'.1 = .eq) : e = e' := by
  by_contra hne
  have hsymm : Std.Symm fun e e' : κ × ν => compare e.1 e'.1 ≠ .eq :=
    ⟨fun _ _ h g => h (Std.OrientedCmp.eq_symm g)⟩
  have hpair : m.entries.Pairwise fun e e' => compare e.1 e'.1 ≠ .eq := by
    apply m.ascending.imp
    intro e e' hlt htie
    have hkeys : compare e.1 e'.1 = .lt := hlt
    rw [htie] at hkeys
    cases hkeys
  exact hpair.forall he he' hne htie

/-- Looking up gives the value of the entry whose key ties. -/
theorem get?_eq_some_iff {m : SortedMap κ ν} {k : κ} {v : ν} :
    m.get? k = some v ↔ ∃ e ∈ m.entries, compare k e.1 = .eq ∧ e.2 = v := by
  constructor
  · intro h
    obtain ⟨e, hfind, hvalue⟩ := Option.map_eq_some_iff.1 h
    have hfound := List.find?_some hfind
    exact ⟨e, List.mem_of_find?_eq_some hfind, Ordering.isEq_iff_eq_eq.1 hfound, hvalue⟩
  · rintro ⟨e, he, htie, rfl⟩
    cases hfind : m.entries.find? fun e => (compare k e.1).isEq with
    | none => exact absurd (Ordering.isEq_iff_eq_eq.2 htie) (List.find?_eq_none.1 hfind e he)
    | some found =>
      have hfound := List.find?_some hfind
      have hsame : compare e.1 found.1 = .eq :=
        Std.TransCmp.eq_trans (Std.OrientedCmp.eq_symm htie) (Ordering.isEq_iff_eq_eq.1 hfound)
      rw [get?, hfind, ← eq_of_mem_entries he (List.mem_of_find?_eq_some hfind) hsame, Option.map_some]

/-- A key that is not there yet comes in with its value, and the other entries stay. -/
theorem mem_entries_insert_iff {m : SortedMap κ ν} {k : κ} (h : m.get? k = none) {v : ν} {e : κ × ν} :
    e ∈ (m.insert k v).entries ↔ e = (k, v) ∨ e ∈ m.entries := by
  apply mem_upsert_iff
  intro old hold htie
  rw [get?_eq_some_iff.2 ⟨old, hold, htie, rfl⟩] at h
  cases h

section Lawful

variable [Std.LawfulEqOrd κ]

/-- The entries are what looking up gives. -/
theorem mem_entries_iff {m : SortedMap κ ν} {k : κ} {v : ν} : (k, v) ∈ m.entries ↔ m.get? k = some v := by
  rw [get?_eq_some_iff]
  constructor
  · intro h
    exact ⟨(k, v), h, Std.ReflCmp.compare_self, rfl⟩
  · rintro ⟨e, he, htie, rfl⟩
    rw [Std.LawfulEqOrd.eq_of_compare htie]
    exact he

variable [BEq κ] [LawfulBEq κ]

theorem get?_insertAll (m : SortedMap κ ν) (l : List (κ × ν)) (k : κ) :
    (m.insertAll l).get? k = (l.reverse.lookup k).or (m.get? k) := by
  induction l generalizing m with
  | nil => simp [insertAll]
  | cons e l ih =>
    obtain ⟨key, value⟩ := e
    have hstep : m.insertAll ((key, value) :: l) = (m.insert key value).insertAll l := rfl
    rw [hstep, ih, get?_insert, List.reverse_cons, List.lookup_append, List.lookup_cons]
    by_cases h : k = key
    · simp [h]
    · have hne : ¬ (compare k key).isEq := by
        intro htie
        exact h (Std.LawfulEqOrd.eq_of_compare (Ordering.isEq_iff_eq_eq.1 htie))
      rw [if_neg hne, beq_false_of_ne h]
      simp

/-- Of several values for one key the last counts. -/
theorem get?_ofList (l : List (κ × ν)) (k : κ) : (ofList l).get? k = l.reverse.lookup k := by
  rw [ofList, get?_insertAll, get?_empty, Option.or_none]

end Lawful

theorem entries_insertAll {m : SortedMap κ ν} {l : List (κ × ν)}
    (h : Ascending (compareOn Prod.fst) (m.entries ++ l)) : (m.insertAll l).entries = m.entries ++ l := by
  induction l generalizing m with
  | nil => rw [List.append_nil, insertAll, List.foldl_nil]
  | cons e l ih =>
    have hlast : ∀ a ∈ m.entries, compareOn Prod.fst a e = .lt := by
      intro a ha
      exact (List.pairwise_append.1 h).2.2 a ha e List.mem_cons_self
    have hinsert : (m.insert e.1 e.2).entries = m.entries ++ [e] := upsert_eq_append hlast
    have hstep : m.insertAll (e :: l) = (m.insert e.1 e.2).insertAll l := rfl
    rw [hstep, ih, hinsert, List.append_assoc, List.singleton_append]
    rwa [hinsert, List.append_assoc, List.singleton_append]

/-- A map is made of its own entries. -/
theorem ofList_entries (m : SortedMap κ ν) : ofList m.entries = m :=
  ext (entries_insertAll m.ascending)

end SortedMap

end JarPlan
