import Mathlib.Data.List.Dedup
import Mathlib.Data.List.Forall2
/-!
# Lists

Facts about lists that do not depend on what is in them: an element that is alone with a property is all that
a filter leaves, a search with the indices at hand stops at the first one, a partial function that is defined on
all of a list maps it, lists are compared element by element, and the elements of a list are related in pairs
where those of another list are that go with them. The elements of a list may be taken once each, in the order in
which they first occur.
-/

namespace JarPlan

variable {α β γ : Type}

theorem filter_eq_singleton {p : α → Bool} {l : List α} {a : α}
    (hpair : l.Pairwise fun b c => ¬ (p b = true ∧ p c = true)) (ha : a ∈ l) (hp : p a = true) :
    l.filter p = [a] := by
  have hmem : a ∈ l.filter p := List.mem_filter.2 ⟨ha, hp⟩
  have halone : (l.filter p).Pairwise fun b c => ¬ (p b = true ∧ p c = true) := hpair.filter p
  have hall : ∀ b ∈ l.filter p, p b = true := fun b hb => (List.mem_filter.1 hb).2
  match l.filter p, hmem, halone, hall with
  | [b], hmem, _, _ => rw [List.mem_singleton.1 hmem]
  | b :: c :: rest, _, halone, hall =>
    have hne := (List.pairwise_cons.1 halone).1 c List.mem_cons_self
    exact absurd ⟨hall b List.mem_cons_self, hall c (by simp)⟩ hne

/-- What is found with the indices at hand is found at the first index where there is something. -/
theorem findSome?_zipIdx_eq_some {f : α × Nat → Option β} {l : List α} {b : β}
    (h : l.zipIdx.findSome? f = some b) :
    ∃ i a, l[i]? = some a ∧ f (a, i) = some b ∧ ∀ j < i, ∀ a', l[j]? = some a' → f (a', j) = none := by
  obtain ⟨before, ⟨a, i⟩, after, hsplit, hfound, hbefore⟩ := List.findSome?_eq_some_iff.1 h
  have hat (j : Nat) : (before ++ (a, i) :: after)[j]? = l[j]?.map (·, j) := by
    rw [← hsplit, List.getElem?_zipIdx]
    simp only [Nat.zero_add]
  have hindex := hat before.length
  rw [List.getElem?_append_right (Nat.le_refl _), Nat.sub_self, List.getElem?_cons_zero, eq_comm,
    Option.map_eq_some_iff] at hindex
  obtain ⟨a', ha, heq⟩ := hindex
  obtain ⟨rfl, rfl⟩ := Prod.mk.inj heq
  refine ⟨_, a', ha, hfound, fun j hlt a hj => hbefore _ ?_⟩
  have hmem := hat j
  rw [List.getElem?_append_left hlt, hj] at hmem
  exact List.mem_of_getElem? hmem

theorem mapM_map_eq_some {f : β → Option γ} {g : α → β} {k : α → γ} {l : List α}
    (h : ∀ a ∈ l, f (g a) = some (k a)) : (l.map g).mapM f = some (l.map k) := by
  induction l with
  | nil => rfl
  | cons a l ih =>
    obtain ⟨ha, hl⟩ := List.forall_mem_cons.1 h
    rw [List.map_cons, List.mapM_cons, ha, ih hl]
    rfl

theorem beq_iff_forall₂ [BEq α] {l l' : List α} :
    (l == l') = true ↔ List.Forall₂ (fun a b => (a == b) = true) l l' := by
  induction l generalizing l' with
  | nil => cases l' <;> simp
  | cons a l ih =>
    cases l' with
    | nil => simp
    | cons b l' => rw [List.cons_beq_cons, Bool.and_eq_true, ih, List.forall₂_cons]

section Beq
variable [BEq α] {l l' : List α} (h : (l == l') = true)
include h

/-- A function that does not tell matching elements apart makes the same of matching lists. -/
theorem map_eq_of_beq {f : α → β} (hf : ∀ a b, (a == b) = true → f a = f b) : l.map f = l'.map f := by
  rw [← List.forall₂_eq_eq_eq]
  exact List.rel_map (fun a b => hf a b) (beq_iff_forall₂.1 h)

theorem any_eq_of_beq {f : α → Bool} (hf : ∀ a b, (a == b) = true → f a = f b) : l.any f = l'.any f := by
  rw [← Function.id_comp f, ← List.any_map, ← List.any_map, map_eq_of_beq h hf]

theorem filter_beq_filter {f : α → Bool} (hf : ∀ a b, (a == b) = true → f a = f b) :
    (l.filter f == l'.filter f) = true := by
  refine beq_iff_forall₂.2 (List.rel_filter (fun a b hmatch => ?_) (beq_iff_forall₂.1 h))
  exact iff_of_eq (congrArg (· = true) (hf a b hmatch))

theorem isEmpty_eq_of_beq : l.isEmpty = l'.isEmpty := by
  rw [Bool.eq_iff_iff, List.isEmpty_iff_length_eq_zero, List.isEmpty_iff_length_eq_zero,
    (beq_iff_forall₂.1 h).length_eq]

end Beq

/-! ### Elements where they first occur -/

section First
variable [DecidableEq α]

/-- The elements of a list, each once, in the order in which they first occur. -/
def firstOccurrences (l : List α) : List α := l.reverse.dedup.reverse

@[simp] theorem mem_firstOccurrences {l : List α} {a : α} : a ∈ firstOccurrences l ↔ a ∈ l := by
  rw [firstOccurrences, List.mem_reverse, List.mem_dedup, List.mem_reverse]

/-- What has occurred before makes no difference. -/
theorem firstOccurrences_concat_of_mem {l : List α} {a : α} (h : a ∈ l) :
    firstOccurrences (l ++ [a]) = firstOccurrences l := by
  rw [firstOccurrences, List.reverse_concat, List.dedup_cons_of_mem (List.mem_reverse.2 h), firstOccurrences]

theorem firstOccurrences_concat_of_not_mem {l : List α} {a : α} (h : a ∉ l) :
    firstOccurrences (l ++ [a]) = firstOccurrences l ++ [a] := by
  rw [firstOccurrences, List.reverse_concat, List.dedup_cons_of_notMem (mt List.mem_reverse.1 h),
    List.reverse_cons, firstOccurrences]

end First

theorem pairwise_of_forall₂ {R : α → α → Prop} {S : β → β → Prop} {T : α → β → Prop} {l : List α} {m : List β}
    (hl : List.Forall₂ T l m) (hm : m.Pairwise S) (h : ∀ {a a' b b'}, T a b → T a' b' → S b b' → R a a') :
    l.Pairwise R := by
  have hlength := hl.length_eq
  rw [← List.map_snd_zip (Nat.le_of_eq hlength.symm), List.pairwise_map] at hm
  rw [← List.map_fst_zip (Nat.le_of_eq hlength), List.pairwise_map]
  apply hm.imp_of_mem
  intro e e' he he' hS
  exact h (List.forall₂_zip hl he) (List.forall₂_zip hl he') hS

end JarPlan
