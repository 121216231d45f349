import JarPlan.Proofs.Path.Normal
import JarPlan.Proofs.Text.Trim
/-!
# Paths that are cut

A cut leaves the segments on one side of it and drops those at its edges that name nothing. What is left
is read back as the components on that side: all but the last one for the directory that holds a path,
and those behind the components of a directory for a path that is stripped of it.
-/

namespace JarPlan.Path

/-! ### Segments at the edge -/

theorem namesOf_trimEnd (segments : List (List Char)) :
    namesOf (Text.trimEnd isVoid segments) = namesOf segments := by
  have hsplit : Text.trimEnd isVoid segments ++ segments.rtakeWhile isVoid = segments :=
    List.rdropWhile_append_rtakeWhile ..
  have hvoid : namesOf (segments.rtakeWhile isVoid) = [] := by
    rw [namesOf, List.map_eq_nil_iff, List.filter_eq_nil_iff]
    intro s hs
    simpa using List.mem_rtakeWhile_imp hs
  rw [← List.append_nil (namesOf (Text.trimEnd isVoid segments)), ← hvoid, ← namesOf_append, hsplit]

/-! ### The directory that holds a path -/

theorem components_ofParts_here {segments : List (List Char)} (hslash : ∀ s ∈ segments, '/' ∉ s) :
    (ofParts (some .here) segments).components = .here :: namesOf segments := by
  have hall : ∀ s ∈ ['.'] :: segments, '/' ∉ s := List.forall_mem_cons.2 ⟨by decide, hslash⟩
  have hcut : Path.segments (ofParts (some .here) segments) = ['.'] :: segments := by
    rw [Path.segments, ofParts, String.toList_ofList]
    · exact List.splitOn_intercalate '/' hall (List.cons_ne_nil _ _)
    · exact Component.noConfusion
  rw [components_eq, hcut]
  rfl

/-- A lead and the first segments after it, put together again. -/
theorem components_ofParts_lead {p : Path} {segments : List (List Char)}
    (h : segments <+: Text.trimEnd isVoid p.body) :
    (ofParts p.lead segments).components = p.lead.toList ++ namesOf segments := by
  have hbody : segments <+: p.body := h.trans (Text.trimEnd_prefix isVoid p.body)
  have hslash : ∀ s ∈ segments, '/' ∉ s := fun s hs =>
    Text.not_mem_of_mem_splitOn (mem_body (hbody.subset hs))
  rw [lead]
  split
  · exact components_ofParts_root hslash
  · exact components_ofParts_here hslash
  · rename_i hroot hhere
    apply components_ofParts_none hslash
    intro s hs
    obtain ⟨rest, hrest⟩ := h
    have hbody : p.body = p.segments := by
      rw [body]
      split
      · rename_i hsegments
        exact absurd hsegments (hroot _ _)
      · rename_i hsegments
        exact absurd hsegments (hhere _)
      · rfl
    have hfirst : s ∈ (Text.trimEnd isVoid p.segments).head? := by
      rw [← hbody, ← hrest, List.head?_append, Option.mem_def.1 hs]
      rfl
    obtain ⟨others, hcut⟩ := List.head?_eq_some_iff.1 (Text.head?_trimEnd hfirst)
    by_contra hvoid
    rw [Bool.not_eq_false, isVoid, Bool.or_eq_true, List.isEmpty_iff, beq_iff_eq] at hvoid
    rcases hvoid with rfl | rfl
    · cases others with
      | nil =>
        rw [hcut] at hfirst
        cases hfirst
      | cons second others => exact hroot second others hcut
    · exact hhere others hcut

/-- The components of the directory that holds a path are those of the path less the last one. -/
theorem components_of_parent?_eq_some {p q : Path} (h : p.parent? = some q) :
    q.components = p.components.dropLast := by
  have hnames : p.components = p.lead.toList ++ namesOf (Text.trimEnd isVoid p.body) := by
    rw [namesOf_trimEnd]
    rfl
  rw [parent?] at h
  split at h
  · rename_i hbody hlead
    obtain rfl := Option.some.inj h
    rw [hnames, hbody, hlead]
    rfl
  · cases h
  · rename_i hbody hhere
    obtain rfl := Option.some.inj h
    -- the last segment that is left names something, so it is the last component that goes
    have hlast : isVoid ((Text.trimEnd isVoid p.body).getLast hbody) = false :=
      Bool.eq_false_iff.2 (List.rdropWhile_last_not isVoid p.body hbody)
    have hname : namesOf [(Text.trimEnd isVoid p.body).getLast hbody] =
        [.ofSegment ((Text.trimEnd isVoid p.body).getLast hbody)] := by
      rw [namesOf, List.filter_singleton, hlast]
      rfl
    rw [components_ofParts_lead ((Text.trimEnd_prefix isVoid _).trans (List.dropLast_prefix _)),
      namesOf_trimEnd, hnames]
    conv_rhs => rw [← List.dropLast_append_getLast hbody, namesOf_append, hname, ← List.append_assoc]
    exact (List.dropLast_concat ..).symm

theorem components_of_parent?_eq_none {p : Path} (h : p.parent? = none) : p.components = p.lead.toList := by
  have hbody : Text.trimEnd isVoid p.body = [] := by
    rw [parent?] at h
    split at h
    · cases h
    · assumption
    · cases h
  have hnames : p.components = p.lead.toList ++ namesOf p.body := rfl
  rw [hnames, ← namesOf_trimEnd, hbody]
  exact List.append_nil _

/-! ### What is left below a directory -/

theorem namesOf_passed (n : Nat) (segments : List (List Char)) :
    namesOf (passed n segments) = (namesOf segments).drop n := by
  induction segments generalizing n with
  | nil => simp [passed, namesOf]
  | cons s rest ih =>
    rw [passed.eq_def]
    dsimp only
    by_cases hvoid : isVoid s = true
    · rw [if_pos hvoid, ih, namesOf, namesOf, List.filter_cons_of_neg (by simp [hvoid])]
    · have hcons : namesOf (s :: rest) = Component.ofSegment s :: namesOf rest := by
        rw [namesOf, List.filter_cons_of_pos (by simp [hvoid]), List.map_cons, namesOf]
      rw [if_neg hvoid, hcons]
      cases n with
      | zero => exact hcons
      | succ n => exact ih n

/-- What is left starts with the next name. -/
theorem passed_suffix (n : Nat) (segments : List (List Char)) :
    passed n segments <:+ segments ∧ ∀ s ∈ (passed n segments).head?, isVoid s = false := by
  induction segments generalizing n with
  | nil => simp [passed]
  | cons s rest ih =>
    have hrest (n : Nat) : passed n rest <:+ s :: rest := (ih n).1.trans (List.suffix_cons s rest)
    rw [passed.eq_def]
    dsimp only
    by_cases hvoid : isVoid s = true
    · rw [if_pos hvoid]
      exact ⟨hrest n, (ih n).2⟩
    · rw [if_neg hvoid]
      cases n with
      | zero => exact ⟨List.suffix_rfl, by simpa using hvoid⟩
      | succ n => exact ⟨hrest n, (ih n).2⟩

/-- What is left below an absolute directory is the rest of the components, as a relative path. -/
theorem stripLead?_eq_some {p dir q : Path} (hdir : dir.isAbsolute = true)
    (h : p.stripLead? dir = some q) :
    p.components = dir.components ++ q.components ∧ q.isAbsolute = false := by
  rw [stripLead?] at h
  split at h
  · rename_i hstarts
    obtain ⟨rest, hrest⟩ := startsWith_iff.1 hstarts
    have hp : p.isAbsolute = true := by
      rw [isAbsolute_iff, ← hrest, components_of_isAbsolute hdir]
      rfl
    obtain ⟨second, others, hsegments⟩ := segments_of_isAbsolute hp
    have hcomponents : p.components = .root :: namesOf p.body := by
      rw [components, lead, hsegments]
      rfl
    have hlead : p.lead.isSome = true := by
      rw [lead, hsegments]
      rfl
    rw [components_of_isAbsolute hdir, List.length_cons] at h
    simp only [hlead, if_true] at h
    obtain rfl := Option.some.inj h
    obtain ⟨hsuffix, hfirst⟩ := passed_suffix (namesOf dir.segments).length p.body
    have hslash : ∀ s ∈ Text.trimEnd isVoid (passed (namesOf dir.segments).length p.body), '/' ∉ s := by
      intro s hs
      have hmem := hsuffix.subset ((Text.trimEnd_prefix isVoid _).subset hs)
      exact Text.not_mem_of_mem_splitOn (mem_body hmem)
    have hleft : (ofParts none (Text.trimEnd isVoid (passed (namesOf dir.segments).length p.body))).components =
        (namesOf p.body).drop (namesOf dir.segments).length := by
      rw [components_ofParts_none hslash fun s hs => hfirst s (Text.head?_trimEnd hs), namesOf_trimEnd,
        namesOf_passed]
    constructor
    · rw [components_of_isAbsolute hdir, hcomponents] at hrest
      have hnames : namesOf p.body = namesOf dir.segments ++ rest := (List.cons.inj hrest).2.symm
      rw [hleft, components_of_isAbsolute hdir, hcomponents, hnames, List.drop_left, List.cons_append]
    · rw [← Bool.not_eq_true, isAbsolute_iff, hleft]
      intro hhead
      exact root_not_mem_namesOf _ (List.mem_of_mem_drop (List.mem_of_mem_head? hhead))
  · cases h

theorem exists_stripLead?_eq_some {p dir : Path} (h : p.startsWith dir = true) :
    ∃ q, p.stripLead? dir = some q := by
  rw [stripLead?, if_pos h]
  split <;> exact ⟨_, rfl⟩

end JarPlan.Path
