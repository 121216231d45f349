import JarPlan.Proofs.Path.Cut
/-!
# Paths seen from a root

A path that is not absolute is resolved behind the components of the root, and any other by itself. So
the place of a path depends on its components alone, and neither making the path plain first nor taking
an absolute root off it moves the place.
-/

namespace JarPlan

namespace Path

/-! ### Absolute places -/

section Absolutize
variable {root p q : Path}

theorem absolutize_of_isAbsolute (root : Path) (hp : p.isAbsolute = true) :
    root.absolutize p = p.normalize := by
  rw [absolutize, join, if_pos hp]

/-- The components of a joined path, up to dots. -/
theorem resolve_components_join (root : Path) (hp : p.isAbsolute = false) :
    resolve (root.join p).components = resolve (root.components ++ p.components) := by
  by_cases hroot : root.spelling.isEmpty
  · have hcomponents : root.components = [] := by
      rw [show root = ⟨""⟩ from congrArg Path.mk (String.isEmpty_iff.1 hroot)]
      rfl
    rw [join_of_isEmpty hroot, hcomponents, List.nil_append]
  · rw [components_join hroot hp]
    rcases components_of_isAbsolute_eq_false hp with h | h
    · rw [h]
    · rw [h, resolve_here]

theorem absolutize_of_isAbsolute_eq_false (root : Path) (hp : p.isAbsolute = false) :
    root.absolutize p = ofComponents (resolve (root.components ++ p.components)) := by
  rw [absolutize, normalize, resolve_components_join root hp]

theorem components_absolutize (root : Path) (hp : p.isAbsolute = false) :
    (root.absolutize p).components = resolve (root.components ++ p.components) := by
  rw [absolutize, components_normalize, resolve_components_join root hp]

theorem absolutize_congr (root : Path) (h : (p == q) = true) : root.absolutize p = root.absolutize q := by
  by_cases hp : p.isAbsolute = true
  · rw [absolutize_of_isAbsolute root hp, absolutize_of_isAbsolute root (isAbsolute_congr h ▸ hp),
      normalize_congr h]
  · have hp := Bool.eq_false_iff.2 hp
    rw [absolutize_of_isAbsolute_eq_false root hp,
      absolutize_of_isAbsolute_eq_false root (isAbsolute_congr h ▸ hp), beq_iff.1 h]

/-- It makes no difference whether a path is made plain before it is put below the root. -/
theorem absolutize_normalize (root p : Path) : root.absolutize p.normalize = root.absolutize p := by
  by_cases hp : p.isAbsolute = true
  · rw [absolutize_of_isAbsolute root hp,
      absolutize_of_isAbsolute root ((isAbsolute_normalize p).trans hp), normalize_normalize]
  · have hp := Bool.eq_false_iff.2 hp
    rw [absolutize_of_isAbsolute_eq_false root hp,
      absolutize_of_isAbsolute_eq_false root ((isAbsolute_normalize p).trans hp), components_normalize,
      resolve_append_resolve]

theorem isAbsolute_absolutize (hroot : root.isAbsolute = true) (p : Path) :
    (root.absolutize p).isAbsolute = true := by
  rw [absolutize, isAbsolute_normalize]
  by_cases hp : p.isAbsolute = true
  · rw [join_of_isAbsolute root hp, hp]
  · rw [isAbsolute_join root (Bool.eq_false_iff.2 hp), hroot]

theorem normalize_absolutize (root p : Path) : (root.absolutize p).normalize = root.absolutize p :=
  normalize_normalize _

theorem absolutize_eq_of_beq {root' : Path} (h : (root.absolutize p == root'.absolutize q) = true) :
    root.absolutize p = root'.absolutize q :=
  normalize_eq_of_beq h

end Absolutize

/-! ### Taking the root off -/

/-- A path that is taken off the root lies where it lay. -/
theorem absolutize_relativize {root : Path} (hroot : root.isAbsolute = true) (p : Path) :
    root.absolutize (root.relativize p) = root.absolutize p := by
  rw [relativize]
  cases h : p.stripLead? root with
  | none => rfl
  | some q =>
    obtain ⟨hcomponents, hq⟩ := stripLead?_eq_some hroot h
    have hp : p.isAbsolute = true := by
      rw [isAbsolute_iff, hcomponents, components_of_isAbsolute hroot]
      rfl
    rw [Option.getD_some, absolutize_of_isAbsolute root hp, absolutize_of_isAbsolute_eq_false root hq,
      ← hcomponents, normalize]

theorem relativize_of_not_startsWith {root p : Path} (h : p.startsWith root = false) :
    root.relativize p = p := by
  rw [relativize, stripLead?, h, if_neg Bool.false_ne_true, Option.getD_none]

theorem components_relativize {root p : Path} (hroot : root.isAbsolute = true) {rest : List Component}
    (h : p.components = root.components ++ rest) : (root.relativize p).components = rest := by
  obtain ⟨q, hq⟩ := exists_stripLead?_eq_some (startsWith_iff.2 ⟨rest, h.symm⟩)
  rw [relativize, hq, Option.getD_some]
  exact List.append_cancel_left ((stripLead?_eq_some hroot hq).1.symm.trans h)

/-! ### Settled paths -/

/-- A path is settled when it is what is left of its place once the root is taken off. -/
def IsSettled (root p : Path) : Prop := (root.relativize (root.absolutize p) == p) = true

instance (root p : Path) : Decidable (IsSettled root p) := inferInstanceAs (Decidable (_ = true))

section Settled
variable {root p q : Path}

/-- Settled paths that lie at one place match. -/
theorem IsSettled.beq_of_absolutize_eq (hp : IsSettled root p) (hq : IsSettled root q)
    (h : root.absolutize p = root.absolutize q) : (p == q) = true := by
  rw [IsSettled, h] at hp
  exact beq_iff.2 ((beq_iff.1 hp).symm.trans (beq_iff.1 hq))

variable (hroot : root.isAbsolute = true)
include hroot

/-- An absolute path is settled by taking the root off. -/
theorem isSettled_relativize (hp : p.isAbsolute = true) : IsSettled root (root.relativize p.normalize) := by
  rw [IsSettled, absolutize_relativize hroot, absolutize_normalize, absolutize_of_isAbsolute root hp]
  exact beq_iff.2 rfl

theorem startsWith_eq_false_of_isAbsolute_eq_false (hp : p.isAbsolute = false) : p.startsWith root = false := by
  rw [← Bool.not_eq_true, startsWith_iff, components_of_isAbsolute hroot]
  rintro ⟨rest, hrest⟩
  have habsolute : p.isAbsolute = true := by
    rw [isAbsolute_iff, ← hrest]
    rfl
  rw [hp] at habsolute
  cases habsolute

/-- So is an absolute path that does not lie below it. -/
theorem isSettled_normalize_of_isAbsolute (hp : p.isAbsolute = true) (hout : p.normalize.startsWith root = false) :
    IsSettled root p.normalize := by
  rw [← relativize_of_not_startsWith hout]
  exact isSettled_relativize hroot hp

/-- A relative path that stays below a plain root is settled. -/
theorem isSettled_normalize (hplain : (root.normalize == root) = true) (hp : p.isAbsolute = false)
    (hup : .up ∉ p.normalize.components) : IsSettled root p.normalize := by
  have hrelative : p.normalize.isAbsolute = false := (isAbsolute_normalize p).trans hp
  have hnames : ∀ c ∈ p.normalize.components, ∃ text, c = .name text := by
    obtain ⟨names, hnames, hcomponents⟩ := isDownward_normalize (.inr hup)
    rw [hrelative] at hcomponents
    rw [hcomponents]
    exact hnames
  have hbase : resolve root.components = root.components := by
    rw [← components_normalize]
    exact beq_iff.1 hplain
  have hplace : (root.absolutize p.normalize).components = root.components ++ p.normalize.components := by
    rw [components_absolutize root hrelative, resolve_append_names _ hnames, hbase]
  exact beq_iff.2 (components_relativize hroot hplace)

end Settled

end Path

end JarPlan
