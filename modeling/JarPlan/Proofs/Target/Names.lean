import JarPlan.Proofs.Path.Characters
import JarPlan.Target
/-!
# The characters of generated names

The last segment of a generated path has the characters of its template and of the target's name with
its flavors. Flavors are put together with commas, so there is a comma in that name as soon as there are
two flavors, and in every path that is made with it.
-/

namespace JarPlan

/-! ### Replacing -/

namespace Text

variable {α : Type} {c : α}

theorem mem_replaceAll [BEq α] [LawfulBEq α] {old new s : List α} (hold : old ≠ []) (h : c ∈ replaceAll old new s) :
    c ∈ new ∨ c ∈ s := by
  rcases mem_intercalate h with h | ⟨piece, hpiece, h⟩
  · exact .inl h
  · right
    rw [← intercalate_splitAll hold s]
    exact mem_intercalate_of_mem old hpiece h

theorem mem_replaceAll_of_mem [BEq α] {old new s : List α} (hs : 2 ≤ (splitAll old s).length) (h : c ∈ new) :
    c ∈ replaceAll old new s := by
  rw [replaceAll]
  match splitAll old s, hs with
  | first :: second :: rest, _ =>
    rw [List.intercalate_cons_cons, List.append_assoc, List.mem_append, List.mem_append]
    exact .inr (.inl h)

theorem mem_trim {p : α → Bool} {s : List α} (h : c ∈ trim p s) : c ∈ s := by
  rw [trim, trimEnd, List.mem_reverse] at h
  have hdropped := (List.dropWhile_sublist p).subset h
  rw [List.mem_reverse] at hdropped
  exact (List.dropWhile_sublist p).subset hdropped

end Text

namespace Target

variable {t : Target} {c : Char}

theorem mem_base (h : c ∈ t.base.spelling.toList) : c ∈ t.basePath.toList := by
  rw [base, trimmedBase, String.toList_ofList] at h
  exact Text.mem_trim h

/-! ### Segments -/

theorem mem_segment {template : Template} (h : c ∈ (t.segment template).toList) :
    c ∈ t.flavoredName.toList ∨ c ∈ template.text.toList := by
  rw [segment, String.toList_ofList] at h
  exact Text.mem_replaceAll (List.cons_ne_nil _ _) h

theorem mem_segment_of_mem {template : Template}
    (htemplate : 2 ≤ (Text.splitAll ['%', 's'] template.text.toList).length)
    (h : c ∈ t.flavoredName.toList) : c ∈ (t.segment template).toList := by
  rw [segment, String.toList_ofList]
  exact Text.mem_replaceAll_of_mem htemplate h

/-- The name stands where the template has its mark. -/
theorem toList_segment {template : Template} {front back : List Char}
    (htemplate : Text.splitAll ['%', 's'] template.text.toList = [front, back]) :
    (t.segment template).toList = front ++ t.flavoredName.toList ++ back := by
  rw [segment, String.toList_ofList, Text.replaceAll, htemplate, List.intercalate_cons_cons,
    List.intercalate_singleton]

/-! ### Flavors -/

/-- Besides the marks that come with flavors, the characters are those of the name and of the flavors. -/
theorem not_mem_flavoredName (hhash : c ≠ '#') (hcomma : c ≠ ',') (hname : c ∉ t.name.toList)
    (hflavors : ∀ f ∈ t.flavors, c ∉ f.toList) : c ∉ t.flavoredName.toList := by
  rw [flavoredName]
  split
  · rw [String.toList_append, String.toList_append, List.mem_append, List.mem_append, String.toList_intercalate]
    rintro ((h | h) | h)
    · exact hname h
    · exact hhash (List.mem_singleton.1 h)
    · rcases Text.mem_intercalate h with h | ⟨s, hs, h⟩
      · exact hcomma (List.mem_singleton.1 h)
      · obtain ⟨f, hf, rfl⟩ := List.mem_map.1 hs
        exact hflavors f hf h
  · exact hname

theorem comma_mem_intercalate {l : List String} (h : 2 ≤ l.length) : ',' ∈ (",".intercalate l).toList := by
  rw [String.toList_intercalate]
  match l, h with
  | first :: second :: rest, _ =>
    rw [List.map_cons, List.map_cons, List.intercalate_cons_cons, List.append_assoc, List.mem_append,
      List.mem_append]
    exact .inr (.inl (by decide))

/-- Between two flavors there is a comma, and there is no other. -/
theorem comma_mem_flavoredName_iff (hname : ',' ∉ t.name.toList)
    (hflavors : ∀ f ∈ t.flavors, ',' ∉ f.toList) :
    ',' ∈ t.flavoredName.toList ↔ 2 ≤ t.flavors.toList.length := by
  rw [flavoredName]
  by_cases hflavored : t.isFlavored = true
  · rw [if_pos hflavored, String.toList_append, String.toList_append, List.mem_append, List.mem_append]
    constructor
    · rintro ((h | h) | h)
      · exact absurd h hname
      · exact absurd h (by decide)
      · by_cases hlength : 2 ≤ t.flavors.toList.length
        · exact hlength
        · match hlist : t.flavors.toList with
          | [] =>
            rw [hlist] at h
            exact absurd h (by decide)
          | [f] =>
            rw [hlist, String.intercalate_singleton] at h
            exact absurd h (hflavors f (by rw [← SortedSet.mem_toList, hlist]; exact List.mem_singleton_self f))
          | _ :: _ :: _ =>
            rw [hlist] at hlength
            exact absurd (by simp) hlength
    · intro h
      exact .inr (comma_mem_intercalate h)
  · rw [if_neg hflavored]
    have hempty : t.flavors.toList = [] := by
      simpa [isFlavored, SortedSet.isEmpty] using hflavored
    rw [hempty]
    exact ⟨fun h => absurd h hname, fun h => absurd h (by decide)⟩

end Target

end JarPlan
