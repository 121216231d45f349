import JarPlan.Path.Resolve
import JarPlan.Proofs.Text.Pieces
/-!
# The characters of a path

A path that is joined or normalized is spelled with the characters of the paths it is made of, and
with slashes and dots. Names keep their spelling, so a character that comes in with a name is still
there after joining.
-/

namespace JarPlan.Path

variable {c : Char}

/-! ### Joining -/

theorem mem_join {p q : Path} (h : c ∈ (p.join q).spelling.toList) :
    c ∈ p.spelling.toList ∨ c ∈ q.spelling.toList ∨ c = '/' := by
  rw [join] at h
  split at h
  · exact .inr (.inl h)
  · split at h
    · rw [String.toList_append, List.mem_append] at h
      rcases h with h | h
      · exact .inl h
      · exact .inr (.inl h)
    · rw [String.toList_append, String.toList_append, List.mem_append, List.mem_append] at h
      rcases h with (h | h) | h
      · exact .inl h
      · exact .inr (.inr (List.mem_singleton.1 h))
      · exact .inr (.inl h)

theorem mem_join_of_mem_right (p : Path) {q : Path} (h : c ∈ q.spelling.toList) :
    c ∈ (p.join q).spelling.toList := by
  rw [join]
  split
  · exact h
  · split
    · rw [String.toList_append]
      exact List.mem_append_right _ h
    · rw [String.toList_append]
      exact List.mem_append_right _ h

/-- A path that is not absolute comes with all the characters of both. -/
theorem mem_join_iff {p q : Path} (hq : q.isAbsolute = false) (hc : c ≠ '/') :
    c ∈ (p.join q).spelling.toList ↔ c ∈ p.spelling.toList ∨ c ∈ q.spelling.toList := by
  rw [join, hq, if_neg Bool.false_ne_true]
  split
  · rw [String.toList_append, List.mem_append]
  · have hslash : c ∉ "/".toList := fun h => hc (List.mem_singleton.1 h)
    rw [String.toList_append, String.toList_append, List.mem_append, List.mem_append, or_iff_left hslash]

/-! ### Components -/

theorem mem_ofParts {lead : Option Component} {body : List (List Char)}
    (h : c ∈ (ofParts lead body).spelling.toList) :
    c = '/' ∨ (∃ first ∈ lead, c ∈ first.text.toList) ∨ ∃ s ∈ body, c ∈ s := by
  rw [ofParts.eq_def] at h
  split at h
  · rw [String.toList_ofList, List.mem_cons] at h
    rcases h with h | h
    · exact .inl h
    · rcases Text.mem_intercalate h with h | h
      · exact .inl (List.mem_singleton.1 h)
      · exact .inr (.inr h)
  · rw [String.toList_ofList] at h
    rcases Text.mem_intercalate h with h | ⟨s, hs, h⟩
    · exact .inl (List.mem_singleton.1 h)
    · rcases List.mem_cons.1 hs with rfl | hs
      · exact .inr (.inl ⟨_, rfl, h⟩)
      · exact .inr (.inr ⟨s, hs, h⟩)
  · rw [String.toList_ofList] at h
    rcases Text.mem_intercalate h with h | h
    · exact .inl (List.mem_singleton.1 h)
    · exact .inr (.inr h)

theorem mem_ofComponents {components : List Component}
    (h : c ∈ (ofComponents components).spelling.toList) :
    c = '/' ∨ ∃ component ∈ components, c ∈ component.text.toList := by
  rw [ofComponents.eq_def] at h
  split at h
  · rename_i rest
    rcases mem_ofParts h with h | ⟨first, hfirst, h⟩ | ⟨s, hs, h⟩
    · exact .inl h
    · obtain rfl := Option.some.inj hfirst
      exact .inr ⟨.root, List.mem_cons_self, h⟩
    · obtain ⟨component, hcomponent, rfl⟩ := List.mem_map.1 hs
      exact .inr ⟨component, List.mem_cons_of_mem _ hcomponent, h⟩
  · rcases mem_ofParts h with h | ⟨first, hfirst, h⟩ | ⟨s, hs, h⟩
    · exact .inl h
    · cases hfirst
    · obtain ⟨component, hcomponent, rfl⟩ := List.mem_map.1 hs
      exact .inr ⟨component, hcomponent, h⟩

theorem mem_body {p : Path} {s : List Char} (h : s ∈ p.body) : s ∈ p.segments := by
  rw [body] at h
  split at h
  · rename_i hsegments
    rw [hsegments]
    exact List.mem_cons_of_mem _ h
  · rename_i hsegments
    rw [hsegments]
    exact List.mem_cons_of_mem _ h
  · exact h

theorem mem_of_mem_components {p : Path} {component : Component} (hcomponent : component ∈ p.components)
    (h : c ∈ component.text.toList) : c ∈ p.spelling.toList ∨ c = '/' ∨ c = '.' := by
  have hspecial : component ∈ [.root, .here, .up] → c = '/' ∨ c = '.' := by
    intro hmem
    simp only [List.mem_cons, List.not_mem_nil, or_false] at hmem
    rcases hmem with rfl | rfl | rfl
    · exact .inl (List.mem_singleton.1 h)
    · exact .inr (List.mem_singleton.1 h)
    · have hdots : c ∈ ['.', '.'] := h
      simp only [List.mem_cons, List.not_mem_nil, or_false, or_self] at hdots
      exact .inr hdots
  rw [components, List.mem_append, List.mem_map] at hcomponent
  rcases hcomponent with hlead | ⟨s, hs, rfl⟩
  · right
    apply hspecial
    rw [lead] at hlead
    split at hlead
    · rw [List.mem_singleton.1 hlead]
      simp
    · rw [List.mem_singleton.1 hlead]
      simp
    · cases hlead
  · by_cases hup : s = ['.', '.']
    · right
      apply hspecial
      rw [Component.ofSegment, if_pos hup]
      simp
    · rw [Component.ofSegment, if_neg hup, Component.text, String.toList_ofList] at h
      exact .inl (Text.mem_of_mem_splitOn (mem_body (List.mem_filter.1 hs).1) h)

/-! ### Normal form -/

theorem mem_resolveStep {stack : List Component} {component other : Component}
    (h : other ∈ resolveStep stack component) : other = component ∨ other ∈ stack := by
  rw [resolveStep.eq_def] at h
  split at h
  · exact .inr h
  · exact .inr (List.mem_cons_of_mem _ h)
  · exact .inr h
  · exact List.mem_cons.1 h

theorem mem_foldl_resolveStep {components stack : List Component} {component : Component}
    (h : component ∈ components.foldl resolveStep stack) : component ∈ components ∨ component ∈ stack := by
  induction components generalizing stack with
  | nil => exact .inr h
  | cons first rest ih =>
    rcases ih h with h | h
    · exact .inl (List.mem_cons_of_mem first h)
    · rcases mem_resolveStep h with rfl | h
      · exact .inl List.mem_cons_self
      · exact .inr h

theorem mem_normalize {p : Path} (h : c ∈ p.normalize.spelling.toList) :
    c ∈ p.spelling.toList ∨ c = '/' ∨ c = '.' := by
  rcases mem_ofComponents h with h | ⟨component, hcomponent, h⟩
  · exact .inr (.inl h)
  · rw [resolve, List.mem_reverse] at hcomponent
    rcases mem_foldl_resolveStep hcomponent with hcomponent | hcomponent
    · exact mem_of_mem_components hcomponent h
    · cases hcomponent

theorem mem_absolutize {root p : Path} (h : c ∈ (root.absolutize p).spelling.toList) :
    c ∈ root.spelling.toList ∨ c ∈ p.spelling.toList ∨ c = '/' ∨ c = '.' := by
  rcases mem_normalize h with h | h
  · rcases mem_join h with h | h | h
    · exact .inl h
    · exact .inr (.inl h)
    · exact .inr (.inr (.inl h))
  · exact .inr (.inr h)

end JarPlan.Path
