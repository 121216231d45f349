import JarPlan.Proofs.Path.Tidy
/-!
# Plain paths written from left to right

A path can also be made plain in one pass over its components that keeps nothing but the path written so far. A
name is joined to it. For a `..` it is read again: a name at its end is cut off, the root stays as it is, and
anywhere else the `..` is joined like a name. What has been written is at all times the spelling of the components
that are left when the dots seen so far are worked out, so at the end it is the plain path.
-/

namespace JarPlan.Path

/-- Takes in one component at the end of what has been written. -/
def writeStep (written : Path) : Component → Path
  | .here => written
  | .up =>
    match written.components.getLast? with
    | some (.name _) => written.parent?.getD written
    | some .root => written
    | _ => written.join ⟨".."⟩
  | c => written.join ⟨c.text⟩

section Row
variable {row : List Component} (hrow : IsNormal row)
include hrow

/-- A component is joined as its text. -/
theorem ofComponents_join {c : Component} (hc : c.IsSegment) (hnext : IsNormal (row ++ [c])) :
    (ofComponents row).join ⟨c.text⟩ = ofComponents (row ++ [c]) := by
  have hname := isName_text hc
  apply ((isTidy_ofComponents hrow).entry hname).eq_of_beq (isTidy_ofComponents hnext)
  rw [beq_iff, entry, (isTidy_mk hname).components_join (isAbsolute_mk hname), components_ofComponents hrow,
    components_mk_of_isName hname, hc.2.2, components_ofComponents hnext]

/-- A name at the end is cut off. -/
theorem parent?_ofComponents {text : String} (hnext : IsNormal (row ++ [.name text])) :
    (ofComponents (row ++ [.name text])).parent? = some (ofComponents row) := by
  have hcomponents := components_ofComponents hnext
  cases hparent : (ofComponents (row ++ [.name text])).parent? with
  | none =>
    -- only the root, a lone dot and nothing at all have no directory above them
    have hlast := congrArg List.getLast? (hcomponents.symm.trans (components_of_parent?_eq_none hparent))
    rw [List.getLast?_concat, lead] at hlast
    split at hlast <;> cases hlast
  | some q =>
    have hq := components_of_parent?_eq_some hparent
    rw [hcomponents, List.dropLast_concat] at hq
    have htidy := (isTidy_ofComponents hnext).parent hparent
    rw [htidy.eq_of_beq (isTidy_ofComponents hrow) (beq_iff.2 (hq.trans (components_ofComponents hrow).symm))]

end Row

/-! ### Steps -/

/-- The step on the text is the step on the components. -/
theorem writeStep_ofComponents {stack : List Component} (h : IsNormal stack.reverse) {c : Component}
    (hc : c.IsSegment) : writeStep (ofComponents stack.reverse) c = ofComponents (resolveStep stack c).reverse := by
  have hnext := h.resolveStep hc
  have hjoin (hpush : resolveStep stack c = c :: stack) :
      (ofComponents stack.reverse).join ⟨c.text⟩ = ofComponents (resolveStep stack c).reverse := by
    rw [hpush, List.reverse_cons] at hnext ⊢
    exact ofComponents_join h hc hnext
  rcases hc.cases with rfl | ⟨text, rfl⟩
  · rw [writeStep, components_ofComponents h, List.getLast?_reverse]
    -- what is at the end of the text is on top of the stack
    match stack with
    | [] => exact hjoin rfl
    | .here :: below => exact hjoin rfl
    | .up :: below => exact hjoin rfl
    | .root :: below => rfl
    | .name text :: below =>
      rw [List.reverse_cons] at h ⊢
      exact congrArg (Option.getD · _) (parent?_ofComponents hnext h)
  · exact hjoin rfl

theorem foldl_writeStep {stack components : List Component} (h : IsNormal stack.reverse)
    (hcomponents : ∀ c ∈ components, c.IsSegment) :
    components.foldl writeStep (ofComponents stack.reverse) =
      ofComponents (components.foldl resolveStep stack).reverse := by
  induction components generalizing stack with
  | nil => rfl
  | cons c rest ih =>
    obtain ⟨hc, hrest⟩ := List.forall_mem_cons.1 hcomponents
    rw [List.foldl_cons, List.foldl_cons, writeStep_ofComponents h hc, ih (h.resolveStep hc) hrest]

/-- What has been written at the end is the plain path. -/
theorem normalize_eq_foldl_writeStep (p : Path) : p.normalize = p.components.foldl writeStep ⟨""⟩ := by
  have hnames := isSegment_of_mem_namesOf p
  have hempty : IsNormal ([] : List Component).reverse := .nil
  have hroot : IsNormal [Component.root].reverse := .root
  rw [normalize, resolve]
  by_cases hp : p.isAbsolute = true
  · have hfirst : writeStep ⟨""⟩ .root = ofComponents [Component.root].reverse := rfl
    rw [components_of_isAbsolute hp, List.foldl_cons, List.foldl_cons, hfirst, foldl_writeStep hroot hnames]
    rfl
  · rcases components_of_isAbsolute_eq_false (Bool.eq_false_iff.2 hp) with h | h
    · rw [h]
      exact (foldl_writeStep hempty hnames).symm
    · rw [h]
      exact (foldl_writeStep hempty hnames).symm

end JarPlan.Path
