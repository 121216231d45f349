/-!
# Steps that may fail

Computations that may fail are sequenced in `Except`, and a sequence succeeds exactly when each of its
steps does. Proofs take such a sequence apart with the lemmas below and never unfold it.
-/

namespace JarPlan

theorem bind_eq_ok {ε α β : Type} {x : Except ε α} {f : α → Except ε β} {b : β} :
    x >>= f = .ok b ↔ ∃ a, x = .ok a ∧ f a = .ok b := by
  constructor
  · intro h
    cases x with
    | error e => cases h
    | ok a => exact ⟨a, rfl, h⟩
  · rintro ⟨a, rfl, h⟩
    exact h

theorem bind_eq_error {ε α β : Type} {x : Except ε α} {f : α → Except ε β} {e : ε} :
    x >>= f = .error e ↔ x = .error e ∨ ∃ a, x = .ok a ∧ f a = .error e := by
  cases x with
  | error e' => simp [bind, Except.bind]
  | ok a => simp [bind, Except.bind]

theorem mapError_eq_ok {ε ε' α : Type} {x : Except ε α} {f : ε → ε'} {a : α} :
    x.mapError f = .ok a ↔ x = .ok a := by
  cases x with
  | error e =>
    constructor
    · intro h
      cases h
    · intro h
      cases h
  | ok b =>
    constructor
    · intro h
      rw [Except.ok.inj h]
    · intro h
      rw [Except.ok.inj h]
      rfl

theorem exists_ok_of_toBool {ε α : Type} {x : Except ε α} (h : x.toBool = true) : ∃ a, x = .ok a := by
  cases x with
  | error e => cases h
  | ok a => exact ⟨a, rfl⟩

theorem exists_ok_of_any {ε α : Type} {x : Except ε α} {p : α → Bool} (h : x.toOption.any p = true) :
    ∃ a, x = .ok a ∧ p a = true := by
  cases x with
  | error e => cases h
  | ok a => exact ⟨a, rfl, h⟩

/-! ### Lists of computations -/

theorem mapM_eq_ok_map {ε α β : Type} {f : α → Except ε β} {g : α → β} {l : List α}
    (h : ∀ a ∈ l, f a = .ok (g a)) : l.mapM f = .ok (l.map g) := by
  induction l with
  | nil => rfl
  | cons a rest ih =>
    obtain ⟨ha, hrest⟩ := List.forall_mem_cons.1 h
    rw [List.mapM_cons, ha, ih hrest]
    rfl

/-- The first computation that fails is the one whose failure is seen. -/
theorem mapM_eq_error {ε α β : Type} {f : α → Except ε β} {before after : List α} {a : α} {e : ε}
    (hbefore : ∀ b ∈ before, ∃ c, f b = .ok c) (ha : f a = .error e) :
    (before ++ a :: after).mapM f = .error e := by
  induction before with
  | nil =>
    rw [List.nil_append, List.mapM_cons, ha]
    rfl
  | cons b before ih =>
    obtain ⟨⟨c, hb⟩, hrest⟩ := List.forall_mem_cons.1 hbefore
    rw [List.cons_append, List.mapM_cons, hb, ih hrest]
    rfl

/-- Computations that each fail by a condition on their input fail together at the first input that does not
meet it. -/
theorem mapM_eq_match {ε α β : Type} {f : α → Except ε β} {g : α → β} {fault : α → ε} {P : α → Prop}
    [DecidablePred P] (hok : ∀ a, P a → f a = .ok (g a)) (herror : ∀ a, ¬ P a → f a = .error (fault a))
    (l : List α) :
    l.mapM f = match l.find? (fun a => ¬ P a) with
      | some a => .error (fault a)
      | none => .ok (l.map g) := by
  cases hfind : l.find? fun a => ¬ P a with
  | none => exact mapM_eq_ok_map fun a ha => hok a (by simpa using List.find?_eq_none.1 hfind a ha)
  | some a =>
    obtain ⟨hnot, before, after, rfl, hbefore⟩ := List.find?_eq_some_iff_append.1 hfind
    exact mapM_eq_error (fun b hb => ⟨g b, hok b (by simpa using hbefore b hb)⟩)
      (herror a (of_decide_eq_true hnot))

end JarPlan
