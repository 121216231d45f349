import Mathlib.Data.List.Basic
import JarPlan.Text.Split
/-!
# Texts joined at a separator

Pieces that are joined and cut again come back exactly when none of them holds the separator. Where the
separator has several characters, it may also start in a piece and end behind it, so a piece has to be free
of it even with the beginning of the next separator. What is cut off a text has only characters of the text,
and what is joined has only characters of the pieces and of the separator.
-/

namespace JarPlan.Text

variable {α : Type}

/-! ### Cutting -/

theorem not_mem_of_mem_splitOn [DecidableEq α] {a : α} {s l : List α} (h : l ∈ s.splitOn a) : a ∉ l := by
  induction s generalizing l with
  | nil =>
    rw [List.splitOn_nil, List.mem_singleton] at h
    simp [h]
  | cons c rest ih =>
    rw [List.splitOn_cons_eq_if_modifyHead] at h
    split at h
    · obtain rfl | h := List.mem_cons.1 h
      · simp
      · exact ih h
    · rename_i hc
      obtain ⟨first, others, hcut⟩ := List.exists_cons_of_ne_nil (List.splitOn_ne_nil a rest)
      rw [hcut, List.modifyHead_cons] at h
      rw [hcut] at ih
      obtain rfl | h := List.mem_cons.1 h
      · intro ha
        obtain rfl | ha := List.mem_cons.1 ha
        · exact hc (beq_self_eq_true a)
        · exact ih List.mem_cons_self ha
      · exact ih (List.mem_cons_of_mem first h)

/-- Pieces that are joined are cut apart again when, and only when, the separator is in none of them. -/
theorem splitOn_intercalate_eq_iff [DecidableEq α] {a : α} {pieces : List (List α)} (h : pieces ≠ []) :
    ([a].intercalate pieces).splitOn a = pieces ↔ ∀ l ∈ pieces, a ∉ l := by
  constructor
  · intro hcut l hl
    rw [← hcut] at hl
    exact not_mem_of_mem_splitOn hl
  · intro hpieces
    exact List.splitOn_intercalate a hpieces h

/-- The pieces of a text between the occurrences of a character. -/
def cutAt (a : Char) (s : String) : List String := (s.toList.splitOn a).map String.ofList

theorem cutAt_append {a : Char} {sep : String} (hsep : sep.toList = [a]) (s t : String) :
    cutAt a (s ++ sep ++ t) = cutAt a s ++ cutAt a t := by
  rw [cutAt, String.toList_append, String.toList_append, hsep, List.append_assoc, List.singleton_append,
    List.splitOn_append_cons_self, List.map_append]
  rfl

theorem not_mem_of_mem_cutAt {a : Char} {s piece : String} (h : piece ∈ cutAt a s) : a ∉ piece.toList := by
  obtain ⟨l, hl, rfl⟩ := List.mem_map.1 h
  rw [String.toList_ofList]
  exact not_mem_of_mem_splitOn hl

theorem cutAt_eq_singleton {a : Char} {s : String} (h : a ∉ s.toList) : cutAt a s = [s] := by
  rw [cutAt, List.splitOn_eq_singleton h, List.map_singleton, String.ofList_toList]

theorem length_splitOn [DecidableEq α] (a : α) (s : List α) : (s.splitOn a).length = s.count a + 1 := by
  induction s with
  | nil => rfl
  | cons c rest ih =>
    rw [List.splitOn_cons_eq_if_modifyHead, List.count_cons]
    split
    · rw [List.length_cons, ih]
    · rw [List.length_modifyHead, ih]

/-- There is one piece more than there are separators. -/
theorem length_cutAt (a : Char) (s : String) : (cutAt a s).length = s.toList.count a + 1 := by
  rw [cutAt, List.length_map, length_splitOn]

theorem cutAt_intercalate_iff {a : Char} {sep : String} (hsep : sep.toList = [a]) {pieces : List String}
    (h : pieces ≠ []) : cutAt a (sep.intercalate pieces) = pieces ↔ ∀ piece ∈ pieces, a ∉ piece.toList := by
  have hlists : pieces.map String.toList ≠ [] := by simpa using h
  have hmap (texts : List (List Char)) :
      texts.map String.ofList = pieces ↔ texts = pieces.map String.toList := by
    constructor
    · rintro rfl
      simp
    · rintro rfl
      simp
  have hcut := splitOn_intercalate_eq_iff (a := a) hlists
  rw [List.forall_mem_map] at hcut
  rw [cutAt, String.toList_intercalate, hsep, hmap, hcut]

/-- A text has two pieces exactly when the separator stands in it once. -/
theorem splitOn_eq_pair_iff [DecidableEq α] {a : α} {s front back : List α} :
    s.splitOn a = [front, back] ↔ s = front ++ a :: back ∧ a ∉ front ∧ a ∉ back := by
  have hpair : [a].intercalate [front, back] = front ++ a :: back := by
    rw [List.intercalate_cons_cons, List.intercalate_singleton, List.append_assoc, List.singleton_append]
  have hpieces := splitOn_intercalate_eq_iff (a := a) (List.cons_ne_nil front [back])
  rw [hpair, List.forall_mem_cons, List.forall_mem_singleton] at hpieces
  constructor
  · intro h
    have hjoin : [a].intercalate (s.splitOn a) = s := List.intercalate_splitOn a
    rw [h, hpair] at hjoin
    subst hjoin
    exact ⟨rfl, hpieces.1 h⟩
  · rintro ⟨rfl, hfree⟩
    exact hpieces.2 hfree

/-! ### Separators of several characters -/

section Separator
variable {sep piece : List α}

theorem splitAllFrom_append [BEq α] (sep seen front rest : List α) :
    splitAllFrom sep front.length seen (front ++ rest) = splitAllFrom sep 0 seen rest := by
  induction front with
  | nil => rfl
  | cons c front ih => exact ih

/-- An occurrence of the separator that starts in a piece is one in the piece and the next separator. -/
theorem not_isPrefix_append (hpiece : piece ≠ []) (h : ¬ sep <:+: piece ++ sep.dropLast) (rest : List α) :
    ¬ sep <+: piece ++ sep ++ rest := by
  intro hprefix
  apply h
  have hfront : piece ++ sep.dropLast <+: piece ++ sep ++ rest :=
    ((List.prefix_append_right_inj piece).2 sep.dropLast_prefix).trans (List.prefix_append _ rest)
  have hlength : sep.length ≤ (piece ++ sep.dropLast).length := by
    have hpos := List.length_pos_iff.2 hpiece
    rw [List.length_append, List.length_dropLast]
    omega
  exact (List.prefix_of_prefix_length_le hprefix hfront hlength).isInfix

variable [BEq α] [LawfulBEq α]

theorem splitAllFrom_piece (hsep : sep ≠ []) (seen : List α) (h : ¬ sep <:+: piece ++ sep.dropLast)
    (rest : List α) :
    splitAllFrom sep 0 seen (piece ++ sep ++ rest) = (seen.reverse ++ piece) :: splitAll sep rest := by
  induction piece generalizing seen with
  | nil =>
    match sep with
    | [] => exact absurd rfl hsep
    | c :: front =>
      have hmet : (c :: front).isPrefixOf (c :: (front ++ rest)) = true :=
        List.isPrefixOf_iff_prefix.2 (List.prefix_append (c :: front) rest)
      rw [List.nil_append, List.cons_append, splitAllFrom, if_pos hmet, List.append_nil]
      exact congrArg (seen.reverse :: ·) (splitAllFrom_append _ [] front rest)
  | cons c piece ih =>
    have hnot := not_isPrefix_append (List.cons_ne_nil c piece) h rest
    have htail : ¬ sep <:+: piece ++ sep.dropLast := fun hfound => h (List.infix_cons_iff.2 (.inr hfound))
    rw [List.cons_append, List.cons_append] at hnot
    rw [List.cons_append, List.cons_append, splitAllFrom, if_neg (mt List.isPrefixOf_iff_prefix.1 hnot),
      ih (c :: seen) htail, List.reverse_cons, List.append_assoc, List.singleton_append]

theorem splitAllFrom_last (seen : List α) (h : ¬ sep <:+: piece) :
    splitAllFrom sep 0 seen piece = [seen.reverse ++ piece] := by
  induction piece generalizing seen with
  | nil => rw [splitAllFrom, List.append_nil]
  | cons c piece ih =>
    rw [List.infix_cons_iff, not_or] at h
    rw [splitAllFrom, if_neg (mt List.isPrefixOf_iff_prefix.1 h.1), ih (c :: seen) h.2, List.reverse_cons,
      List.append_assoc, List.singleton_append]

/-- Pieces that are free of the separator, also together with the beginning of one, come back. -/
theorem splitAll_intercalate (hsep : sep ≠ []) {pieces : List (List α)} (hne : pieces ≠ [])
    (h : ∀ piece ∈ pieces, ¬ sep <:+: piece ++ sep.dropLast) : splitAll sep (sep.intercalate pieces) = pieces := by
  induction pieces with
  | nil => exact absurd rfl hne
  | cons first others ih =>
    obtain ⟨hfirst, hothers⟩ := List.forall_mem_cons.1 h
    cases others with
    | nil =>
      have hlast : ¬ sep <:+: first := fun hfound => hfirst (hfound.trans (List.prefix_append _ _).isInfix)
      rw [List.intercalate_singleton, splitAll, splitAllFrom_last [] hlast]
      rfl
    | cons second others =>
      rw [List.intercalate_cons_cons, splitAll, splitAllFrom_piece hsep [] hfirst,
        ih (List.cons_ne_nil _ _) hothers]
      rfl

/-- For a separator of two characters it is enough that no piece has the first of them. -/
theorem splitAll_intercalate_of_not_mem {c d : α} (hne : c ≠ d) {pieces : List (List α)} (hpieces : pieces ≠ [])
    (h : ∀ piece ∈ pieces, c ∉ piece) : splitAll [c, d] ([c, d].intercalate pieces) = pieces := by
  refine splitAll_intercalate (List.cons_ne_nil c [d]) hpieces fun piece hpiece hfound => ?_
  obtain ⟨front, back, hjoin⟩ := hfound
  obtain rfl | ⟨back, last, rfl⟩ := List.eq_nil_or_concat back
  · -- the text ends in `c`, and the separator does not
    have hlast := congrArg List.getLast? hjoin
    simp only [List.append_nil, List.dropLast_cons_cons, List.dropLast_singleton, List.getLast?_append,
      List.getLast?_cons_cons, List.getLast?_singleton, Option.some_or, Option.some.injEq] at hlast
    exact hne hlast.symm
  · rw [List.concat_eq_append, ← List.append_assoc] at hjoin
    have hfront := (List.append_inj' hjoin rfl).1
    exact h piece hpiece (hfront ▸ by simp)

theorem splitAtFrom?_append {c : α} {front : List α} (seen : List α) (h : c ∉ front) (rest : List α) :
    splitAtFrom? (c :: sep) seen (front ++ (c :: sep) ++ rest) = some (seen.reverse ++ front, rest) := by
  induction front generalizing seen with
  | nil =>
    have hmet : (c :: sep).isPrefixOf (c :: (sep ++ rest)) = true :=
      List.isPrefixOf_iff_prefix.2 (List.prefix_append (c :: sep) rest)
    rw [List.nil_append, List.cons_append, splitAtFrom?, if_pos hmet, ← List.cons_append, List.drop_left,
      List.append_nil]
  | cons d front ih =>
    rw [List.mem_cons, not_or] at h
    obtain ⟨hd, hfront⟩ := h
    have hnot : ¬ (c :: sep).isPrefixOf (d :: (front ++ (c :: sep) ++ rest)) = true := by
      rw [List.isPrefixOf_iff_prefix, List.cons_prefix_cons]
      exact fun hprefix => hd hprefix.1
    rw [List.cons_append, List.cons_append, splitAtFrom?, if_neg hnot, ih (d :: seen) hfront, List.reverse_cons,
      List.append_assoc, List.singleton_append]

/-- A separator whose first character does not stand before it is the first one. -/
theorem splitAt?_append {c : α} {front : List α} (h : c ∉ front) (rest : List α) :
    splitAt? (c :: sep) (front ++ (c :: sep) ++ rest) = some (front, rest) :=
  splitAtFrom?_append [] h rest

end Separator

theorem dropLead?_append [BEq α] [LawfulBEq α] (lead rest : List α) : dropLead? lead (lead ++ rest) = some rest := by
  rw [dropLead?, if_pos (List.isPrefixOf_iff_prefix.2 (List.prefix_append lead rest)), List.drop_left]

theorem dropTail?_append [BEq α] [LawfulBEq α] (front tail : List α) :
    dropTail? tail (front ++ tail) = some front := by
  have hlength : (front ++ tail).length - tail.length = front.length := by
    rw [List.length_append]
    omega
  rw [dropTail?, if_pos (List.isSuffixOf_iff_suffix.2 (List.suffix_append front tail)), hlength, List.take_left]

/-! ### Joining -/

/-- What stands before joined pieces stands before the first of them. -/
theorem append_intercalate (front sep first : List α) (others : List (List α)) :
    front ++ sep.intercalate (first :: others) = sep.intercalate ((front ++ first) :: others) := by
  cases others with
  | nil => rw [List.intercalate_singleton, List.intercalate_singleton]
  | cons second others =>
    rw [List.intercalate_cons_cons, List.intercalate_cons_cons, List.append_assoc, List.append_assoc,
      List.append_assoc]

theorem suffix_intercalate (sep last : List α) (pieces : List (List α)) :
    last <:+ sep.intercalate (pieces ++ [last]) := by
  induction pieces with
  | nil => simp
  | cons first pieces ih =>
    rw [List.cons_append, List.intercalate_cons_of_ne_nil (by simp)]
    exact ih.trans (List.suffix_append _ _)

/-! ### Characters -/

theorem mem_intercalate {c : α} {sep : List α} {pieces : List (List α)} (h : c ∈ sep.intercalate pieces) :
    c ∈ sep ∨ ∃ l ∈ pieces, c ∈ l := by
  induction pieces with
  | nil => simp at h
  | cons first others ih =>
    cases others with
    | nil => exact .inr ⟨first, List.mem_cons_self, by simpa using h⟩
    | cons second others =>
      rw [List.intercalate_cons_cons, List.append_assoc, List.mem_append, List.mem_append] at h
      rcases h with h | h | h
      · exact .inr ⟨first, List.mem_cons_self, h⟩
      · exact .inl h
      · rcases ih h with h | ⟨l, hl, h⟩
        · exact .inl h
        · exact .inr ⟨l, List.mem_cons_of_mem first hl, h⟩

theorem mem_intercalate_of_mem {c : α} (sep : List α) {l : List α} {pieces : List (List α)}
    (hl : l ∈ pieces) (hc : c ∈ l) : c ∈ sep.intercalate pieces := by
  induction pieces with
  | nil => simp at hl
  | cons first others ih =>
    cases others with
    | nil =>
      obtain rfl := List.mem_singleton.1 hl
      simpa using hc
    | cons second others =>
      rw [List.intercalate_cons_cons, List.append_assoc, List.mem_append, List.mem_append]
      obtain rfl | hl := List.mem_cons.1 hl
      · exact .inl hc
      · exact .inr (.inr (ih hl))

theorem mem_of_mem_splitOn [DecidableEq α] {a c : α} {s l : List α} (hl : l ∈ s.splitOn a) (hc : c ∈ l) :
    c ∈ s := by
  have hjoin : [a].intercalate (s.splitOn a) = s := List.intercalate_splitOn a
  rw [← hjoin]
  exact mem_intercalate_of_mem [a] hl hc

end JarPlan.Text
