import JarPlan.Text.Blank
import Mathlib.Data.List.DropRight
/-!
# Trimming takes off what stands around a text

A text that neither begins nor ends with a character of the class is what remains when characters of
the class are put on both sides of it and trimmed away again.
-/

namespace JarPlan.Text

variable {α : Type} {p : α → Bool}

theorem dropWhile_eq_self {s : List α} (h : ∀ c ∈ s.head?, p c = false) : s.dropWhile p = s := by
  cases s with
  | nil => rfl
  | cons c rest => rw [List.dropWhile_cons_of_neg (by simp [h c rfl])]

theorem trimEnd_prefix (p : α → Bool) (s : List α) : trimEnd p s <+: s := List.rdropWhile_prefix p s

theorem head?_trimEnd {s : List α} {c : α} (h : c ∈ (trimEnd p s).head?) : c ∈ s.head? := by
  obtain ⟨rest, hrest⟩ := trimEnd_prefix p s
  rw [← hrest, List.head?_append, Option.mem_def.1 h]
  rfl

theorem eq_false_of_mem_head?_trim {s : List α} {c : α} (h : c ∈ (trim p s).head?) : p c = false := by
  have hfirst := List.head?_dropWhile_not p s
  rw [Option.mem_def.1 (head?_trimEnd h)] at hfirst
  exact hfirst

theorem trimEnd_append {s after : List α} (hafter : ∀ c ∈ after, p c = true)
    (hlast : ∀ c ∈ s.getLast?, p c = false) : trimEnd p (s ++ after) = s := by
  have hskip : (after.reverse ++ s.reverse).dropWhile p = s.reverse.dropWhile p :=
    List.dropWhile_append_of_pos fun c hc => hafter c (List.mem_reverse.1 hc)
  have hkeep : s.reverse.dropWhile p = s.reverse :=
    dropWhile_eq_self fun c hc => hlast c (by rwa [List.head?_reverse] at hc)
  rw [trimEnd, List.reverse_append, hskip, hkeep, List.reverse_reverse]

theorem trim_append {before s after : List α} (hbefore : ∀ c ∈ before, p c = true)
    (hafter : ∀ c ∈ after, p c = true) (hfirst : ∀ c ∈ s.head?, p c = false)
    (hlast : ∀ c ∈ s.getLast?, p c = false) : trim p (before ++ s ++ after) = s := by
  rw [trim, List.append_assoc, List.dropWhile_append_of_pos hbefore]
  cases s with
  | nil =>
    have hnone : after.dropWhile p = [] := by
      rw [← List.append_nil after, List.dropWhile_append_of_pos hafter]
      rfl
    rw [List.nil_append, hnone]
    rfl
  | cons c rest =>
    rw [dropWhile_eq_self (by simpa using hfirst), trimEnd_append hafter hlast]

theorem trim_append_right {s after : List α} (hafter : ∀ c ∈ after, p c = true) (hfirst : ∀ c ∈ s.head?, p c = false)
    (hlast : ∀ c ∈ s.getLast?, p c = false) : trim p (s ++ after) = s :=
  trim_append (List.forall_mem_nil _) hafter hfirst hlast

theorem trim_eq_self {s : List α} (hfirst : ∀ c ∈ s.head?, p c = false) (hlast : ∀ c ∈ s.getLast?, p c = false) :
    trim p s = s := by
  simpa using trim_append_right (List.forall_mem_nil _) hfirst hlast

end JarPlan.Text
