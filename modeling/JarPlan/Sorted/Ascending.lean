/-!
# Ascending lists

Sets and maps here are lists in strictly ascending order under a comparison, so two of them with the
same contents are the same list. One operation builds them all: `upsert` puts an element in its
place, and where an element of the same rank already stands it leaves one element, chosen by a merge
rule. Sets that keep the spelling seen first, sets that keep the one seen last and maps that keep the
key and take the value differ in that rule alone.

The comparison may tie elements that are not equal. Paths are compared by component, so `a/b` and
`a//b` tie without being the same text.
-/

namespace JarPlan

variable {α : Type} (cmp : α → α → Ordering)

/-- Each element comes strictly before all later ones. -/
def Ascending (l : List α) : Prop := l.Pairwise fun a b => cmp a b = .lt

/-- Puts `new` in its place in an ascending list; an element `old` that ties with it is replaced by
`merge old new`. -/
def upsert (merge : α → α → α) (new : α) : List α → List α
  | [] => [new]
  | old :: rest =>
    match cmp new old with
    | .lt => new :: old :: rest
    | .eq => merge old new :: rest
    | .gt => old :: upsert merge new rest

variable {cmp}

theorem Ascending.nil : Ascending cmp ([] : List α) := List.Pairwise.nil

theorem Ascending.filter {l : List α} (h : Ascending cmp l) (p : α → Bool) :
    Ascending cmp (l.filter p) :=
  List.Pairwise.filter p h

/-- What stands in the list afterwards was there before, is new, or is a merge of both. -/
theorem mem_of_mem_upsert {merge : α → α → α} {new a : α} {l : List α}
    (h : a ∈ upsert cmp merge new l) :
    a = new ∨ a ∈ l ∨ ∃ old ∈ l, cmp new old = .eq ∧ a = merge old new := by
  induction l with
  | nil => exact .inl (List.mem_singleton.1 h)
  | cons old rest ih =>
    rw [upsert] at h
    split at h
    · rcases List.mem_cons.1 h with rfl | h
      · exact .inl rfl
      · exact .inr (.inl h)
    · rename_i tie
      rcases List.mem_cons.1 h with rfl | h
      · exact .inr (.inr ⟨old, List.mem_cons_self, tie, rfl⟩)
      · exact .inr (.inl (List.mem_cons_of_mem _ h))
    · rcases List.mem_cons.1 h with rfl | h
      · exact .inr (.inl List.mem_cons_self)
      · rcases ih h with h | h | ⟨b, hb, tie, rfl⟩
        · exact .inl h
        · exact .inr (.inl (List.mem_cons_of_mem _ h))
        · exact .inr (.inr ⟨b, List.mem_cons_of_mem _ hb, tie, rfl⟩)

/-- What ties with nothing that is there comes in beside it. -/
theorem mem_upsert_iff {merge : α → α → α} {new a : α} {l : List α} (h : ∀ b ∈ l, cmp new b ≠ .eq) :
    a ∈ upsert cmp merge new l ↔ a = new ∨ a ∈ l := by
  induction l with
  | nil => simp [upsert]
  | cons old rest ih =>
    obtain ⟨hold, hrest⟩ := List.forall_mem_cons.1 h
    rw [upsert]
    split
    · rw [List.mem_cons]
    · rename_i tie
      exact absurd tie hold
    · rw [List.mem_cons, ih hrest, List.mem_cons, or_left_comm]

/-- Where the old element stays, what ties with one that is there changes nothing. -/
theorem upsert_eq_self [Std.TransCmp cmp] {new : α} {l : List α} (hl : Ascending cmp l)
    (h : ∃ b ∈ l, cmp new b = .eq) : upsert cmp (fun old _ => old) new l = l := by
  induction l with
  | nil =>
    obtain ⟨b, hb, -⟩ := h
    cases hb
  | cons old rest ih =>
    obtain ⟨first, later⟩ := List.pairwise_cons.1 hl
    obtain ⟨b, hb, tie⟩ := h
    rw [upsert]
    split
    · -- everything in the list comes after the new element
      rename_i lt
      rcases List.mem_cons.1 hb with rfl | hb
      · rw [tie] at lt
        cases lt
      · rw [Std.TransCmp.lt_trans lt (first b hb)] at tie
        cases tie
    · rfl
    · rename_i gt
      rcases List.mem_cons.1 hb with rfl | hb
      · rw [tie] at gt
        cases gt
      · rw [ih later ⟨b, hb, tie⟩]

/-- A merge that ties with the new element keeps the order. -/
theorem Ascending.upsert [Std.TransCmp cmp] {merge : α → α → α}
    (ties : ∀ old new, cmp new old = .eq → cmp (merge old new) new = .eq)
    (new : α) {l : List α} (h : Ascending cmp l) : Ascending cmp (upsert cmp merge new l) := by
  induction l with
  | nil => exact List.pairwise_singleton _ _
  | cons old rest ih =>
    obtain ⟨first, later⟩ := List.pairwise_cons.1 h
    rw [JarPlan.upsert]
    split
    · rename_i lt
      refine List.pairwise_cons.2 ⟨fun b hb => ?_, h⟩
      rcases List.mem_cons.1 hb with rfl | hb
      · exact lt
      · exact Std.TransCmp.lt_trans lt (first b hb)
    · rename_i tie
      refine List.pairwise_cons.2 ⟨fun b hb => ?_, later⟩
      exact Std.TransCmp.lt_of_eq_of_lt (ties old new tie)
        (Std.TransCmp.lt_of_eq_of_lt tie (first b hb))
    · rename_i gt
      have lt : cmp old new = .lt := Std.OrientedCmp.gt_iff_lt.1 gt
      refine List.pairwise_cons.2 ⟨fun b hb => ?_, ih later⟩
      rcases mem_of_mem_upsert hb with rfl | hb | ⟨c, hc, tie, rfl⟩
      · exact lt
      · exact first b hb
      · exact Std.TransCmp.lt_of_lt_of_eq lt (Std.OrientedCmp.eq_symm (ties c new tie))

end JarPlan
