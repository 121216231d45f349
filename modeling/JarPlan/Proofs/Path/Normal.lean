import Mathlib.Data.List.Induction
import JarPlan.Proofs.Path.Join
/-!
# Plain paths

Normalizing resolves the components of a path and spells what is left. The components left are in normal
form, the root or some `..` and then names, and components in normal form are read back from their
spelling as they were. So the components of a plain path are those that `resolve` leaves, and what holds
of `resolve` holds of paths: a part may be resolved before the rest is, and nothing changes the second
time.
-/

namespace JarPlan

namespace Component

/-- A component that is spelled as one segment, from which it is read back. -/
def IsSegment (c : Component) : Prop :=
  '/' ∉ c.text.toList ∧ Path.isVoid c.text.toList = false ∧ ofSegment c.text.toList = c

theorem text_ofSegment (s : List Char) : (ofSegment s).text.toList = s := by
  rw [ofSegment]
  split
  · rename_i hup
    rw [hup]
    rfl
  · exact String.toList_ofList

theorem isSegment_ofSegment {s : List Char} (hslash : '/' ∉ s) (hvoid : Path.isVoid s = false) :
    (ofSegment s).IsSegment := by
  rw [IsSegment, text_ofSegment]
  exact ⟨hslash, hvoid, rfl⟩

theorem IsSegment.cases {c : Component} (h : c.IsSegment) : c = .up ∨ ∃ text, c = .name text := by
  cases c with
  | root => exact absurd (List.mem_singleton_self '/') h.1
  | here => cases h.2.1
  | up => exact .inl rfl
  | name text => exact .inr ⟨text, rfl⟩

end Component

namespace Path

/-! ### Spelling and reading back -/

theorem isSegment_of_mem_namesOf (p : Path) : ∀ c ∈ namesOf p.segments, c.IsSegment := by
  intro c hc
  obtain ⟨s, hs, rfl⟩ := List.mem_map.1 hc
  obtain ⟨hmem, hvoid⟩ := List.mem_filter.1 hs
  exact Component.isSegment_ofSegment (Text.not_mem_of_mem_splitOn hmem) (by simpa using hvoid)

theorem namesOf_map_text {components : List Component} (h : ∀ c ∈ components, c.IsSegment) :
    namesOf (components.map (·.text.toList)) = components := by
  induction components with
  | nil => rfl
  | cons c rest ih =>
    obtain ⟨hc, hrest⟩ := List.forall_mem_cons.1 h
    have hsplit : namesOf ((c :: rest).map (·.text.toList)) =
        namesOf [c.text.toList] ++ namesOf (rest.map (·.text.toList)) := namesOf_append [_] _
    rw [hsplit, ih hrest, namesOf, List.filter_singleton, hc.2.1]
    exact congrArg (· :: rest) hc.2.2

/-- Segments put together are cut apart again. -/
theorem segments_ofParts_none {segments : List (List Char)} (hslash : ∀ s ∈ segments, '/' ∉ s)
    (hne : segments ≠ []) : (ofParts none segments).segments = segments := by
  rw [Path.segments, ofParts, String.toList_ofList]
  exact List.splitOn_intercalate '/' hslash hne

theorem segments_ofParts_root {segments : List (List Char)} (hslash : ∀ s ∈ segments, '/' ∉ s)
    (hne : segments ≠ []) : (ofParts (some .root) segments).segments = [] :: segments := by
  have hcut : (ofParts (some .root) segments).segments = [] :: (['/'].intercalate segments).splitOn '/' := by
    rw [Path.segments, ofParts, String.toList_ofList]
    exact List.splitOn_append_cons_self [] _
  rw [hcut, List.splitOn_intercalate '/' hslash hne]

/-- Segments of which the first is a name are read back as what they name. -/
theorem components_ofParts_none {segments : List (List Char)} (hslash : ∀ s ∈ segments, '/' ∉ s)
    (hfirst : ∀ s ∈ segments.head?, isVoid s = false) :
    (ofParts none segments).components = namesOf segments := by
  cases segments with
  | nil => rfl
  | cons first rest =>
    rw [components_eq, segments_ofParts_none hslash (List.cons_ne_nil _ _),
      componentsOf_eq_namesOf _ (hfirst first rfl)]

theorem components_ofParts_root {segments : List (List Char)} (hslash : ∀ s ∈ segments, '/' ∉ s) :
    (ofParts (some .root) segments).components = .root :: namesOf segments := by
  cases segments with
  | nil => rfl
  | cons first rest =>
    rw [components_eq, segments_ofParts_root hslash (List.cons_ne_nil _ _)]
    rfl

/-! ### Resolving by parts -/

/-- A row of components that has been resolved takes in the next one as the row itself does. -/
theorem foldl_reverse_resolveStep (stack done : List Component) (c : Component) :
    (resolveStep done c).reverse.foldl resolveStep stack =
      resolveStep (done.reverse.foldl resolveStep stack) c := by
  have hpush (c : Component) (done : List Component) : (c :: done).reverse.foldl resolveStep stack =
      resolveStep (done.reverse.foldl resolveStep stack) c := by
    rw [List.reverse_cons, List.foldl_append, List.foldl_cons, List.foldl_nil]
  cases c with
  | root => exact hpush .root done
  | here => rfl
  | name text => exact hpush (.name text) done
  | up =>
    -- only a name or the root below it keeps `..` from being put on the stack
    match done with
    | [] => exact hpush .up []
    | .here :: below => exact hpush .up (.here :: below)
    | .up :: below => exact hpush .up (.up :: below)
    | .root :: below =>
      rw [hpush .root below]
      exact hpush .root below
    | .name text :: below =>
      rw [hpush (.name text) below]
      rfl

theorem foldl_reverse_foldl (stack done components : List Component) :
    (components.foldl resolveStep done).reverse.foldl resolveStep stack =
      components.foldl resolveStep (done.reverse.foldl resolveStep stack) := by
  induction components generalizing done with
  | nil => rfl
  | cons c rest ih => rw [List.foldl_cons, List.foldl_cons, ih, foldl_reverse_resolveStep]

theorem resolve_append_resolve (front back : List Component) :
    resolve (front ++ resolve back) = resolve (front ++ back) := by
  rw [resolve, resolve, List.foldl_append, resolve, foldl_reverse_foldl, List.foldl_append,
    List.reverse_nil, List.foldl_nil]

theorem resolve_resolve (components : List Component) : resolve (resolve components) = resolve components :=
  resolve_append_resolve [] components

/-- A dot makes no difference. -/
theorem resolve_here (front back : List Component) :
    resolve (front ++ .here :: back) = resolve (front ++ back) := by
  rw [resolve, resolve, List.foldl_append, List.foldl_append]
  rfl

theorem foldl_resolveStep_names (stack : List Component) {names : List Component}
    (hnames : ∀ c ∈ names, ∃ text, c = .name text) : names.foldl resolveStep stack = names.reverse ++ stack := by
  induction names generalizing stack with
  | nil => rfl
  | cons c rest ih =>
    obtain ⟨⟨text, rfl⟩, hrest⟩ := List.forall_mem_cons.1 hnames
    have hpush : resolveStep stack (.name text) = .name text :: stack := rfl
    rw [List.foldl_cons, hpush, ih _ hrest, List.reverse_cons, List.append_assoc, List.singleton_append]

/-- Names are left as they are. -/
theorem resolve_append_names (front : List Component) {names : List Component}
    (hnames : ∀ c ∈ names, ∃ text, c = .name text) : resolve (front ++ names) = resolve front ++ names := by
  rw [resolve, List.foldl_append, foldl_resolveStep_names _ hnames, List.reverse_append, List.reverse_reverse,
    resolve]

/-! ### Normal form -/

/-- The root or some `..` come first, and then there are names only. -/
def IsNormal (components : List Component) : Prop :=
  ∃ base names, components = base ++ names ∧ (base = [.root] ∨ ∃ n, base = List.replicate n .up) ∧
    ∀ c ∈ names, c.IsSegment ∧ c ≠ .up

theorem IsNormal.nil : IsNormal [] := ⟨[], [], rfl, .inr ⟨0, rfl⟩, by simp⟩

theorem IsNormal.root : IsNormal [.root] := ⟨[.root], [], rfl, .inl rfl, by simp⟩

theorem IsNormal.cases {components : List Component} (h : IsNormal components) :
    (∃ names, components = .root :: names ∧ ∀ c ∈ names, c.IsSegment ∧ c ≠ .up) ∨
      .root ∉ components ∧ ∀ c ∈ components, c.IsSegment := by
  obtain ⟨base, names, rfl, rfl | ⟨n, rfl⟩, hnames⟩ := h
  · exact .inl ⟨names, rfl, hnames⟩
  · have hsegment : ∀ c ∈ List.replicate n Component.up ++ names, c.IsSegment := by
      intro c hc
      rcases List.mem_append.1 hc with hc | hc
      · rw [List.eq_of_mem_replicate hc]
        exact ⟨by decide, by decide, by decide⟩
      · exact (hnames c hc).1
    refine .inr ⟨fun hroot => ?_, hsegment⟩
    rcases (hsegment _ hroot).cases with h | ⟨text, h⟩ <;> cases h

theorem components_ofComponents {components : List Component} (h : IsNormal components) :
    (ofComponents components).components = components := by
  have hslash {row : List Component} (hrow : ∀ c ∈ row, c.IsSegment) :
      ∀ s ∈ row.map (·.text.toList), '/' ∉ s := by
    intro s hs
    obtain ⟨c, hc, rfl⟩ := List.mem_map.1 hs
    exact (hrow c hc).1
  rcases h.cases with ⟨names, rfl, hnames⟩ | ⟨hroot, hsegments⟩
  · have hrow : ∀ c ∈ names, c.IsSegment := fun c hc => (hnames c hc).1
    rw [ofComponents, components_ofParts_root (hslash hrow), namesOf_map_text hrow]
  · rw [ofComponents, components_ofParts_none (hslash hsegments), namesOf_map_text hsegments]
    · intro s hs
      rw [List.head?_map] at hs
      obtain ⟨c, hc, rfl⟩ := Option.map_eq_some_iff.1 hs
      exact (hsegments c (List.mem_of_mem_head? hc)).2.1
    · rintro rest rfl
      exact hroot List.mem_cons_self

/-- A component taken in leaves a stack in normal form. -/
theorem IsNormal.resolveStep {stack : List Component} (h : IsNormal stack.reverse) {c : Component}
    (hc : c.IsSegment) : IsNormal (resolveStep stack c).reverse := by
  obtain ⟨base, names, hstack, hbase, hnames⟩ := h
  obtain rfl : stack = names.reverse ++ base.reverse := by
    rw [← List.reverse_append, ← hstack, List.reverse_reverse]
  rcases hc.cases with rfl | ⟨text, rfl⟩
  · cases names using List.reverseRecOn with
    | append_singleton front last =>
      -- a name is taken away
      obtain ⟨hsegment, hne⟩ := hnames last (by simp)
      obtain ⟨text, rfl⟩ := hsegment.cases.resolve_left hne
      refine ⟨base, front, ?_, hbase, fun c hmem => hnames c (List.mem_append_left _ hmem)⟩
      simp [Path.resolveStep]
    | nil =>
      rcases hbase with rfl | ⟨n, rfl⟩
      · exact .root
      · refine ⟨List.replicate (n + 1) .up, [], ?_, .inr ⟨n + 1, rfl⟩, by simp⟩
        have hpush : Path.resolveStep (List.replicate n .up) .up = List.replicate (n + 1) .up := by
          cases n <;> rfl
        rw [List.reverse_nil, List.nil_append, List.reverse_replicate, hpush, List.reverse_replicate,
          List.append_nil]
  · refine ⟨base, names ++ [.name text], ?_, hbase, fun c hmem => ?_⟩
    · simp [Path.resolveStep]
    · rcases List.mem_append.1 hmem with hmem | hmem
      · exact hnames c hmem
      · rw [List.mem_singleton.1 hmem]
        exact ⟨hc, by simp⟩

theorem IsNormal.foldl_resolveStep {stack components : List Component} (h : IsNormal stack.reverse)
    (hcomponents : ∀ c ∈ components, c.IsSegment) :
    IsNormal (components.foldl Path.resolveStep stack).reverse := by
  induction components generalizing stack with
  | nil => exact h
  | cons c rest ih =>
    obtain ⟨hc, hrest⟩ := List.forall_mem_cons.1 hcomponents
    exact ih (h.resolveStep hc) hrest

theorem isNormal_resolve (p : Path) : IsNormal (resolve p.components) := by
  have hnames := isSegment_of_mem_namesOf p
  by_cases hp : p.isAbsolute = true
  · have hroot : IsNormal [Component.root].reverse := .root
    rw [components_of_isAbsolute hp]
    exact hroot.foldl_resolveStep hnames
  · have hempty : IsNormal ([] : List Component).reverse := .nil
    rcases components_of_isAbsolute_eq_false (Bool.eq_false_iff.2 hp) with h | h
    · rw [h]
      exact hempty.foldl_resolveStep hnames
    · rw [h, ← List.nil_append (_ :: _), resolve_here]
      exact hempty.foldl_resolveStep hnames

theorem components_normalize (p : Path) : p.normalize.components = resolve p.components :=
  components_ofComponents (isNormal_resolve p)

theorem normalize_normalize (p : Path) : p.normalize.normalize = p.normalize := by
  rw [normalize, components_normalize, resolve_resolve]
  rfl

/-- Nothing takes the root away. -/
theorem exists_foldl_resolveStep_root (front components : List Component) :
    ∃ above, components.foldl resolveStep (front ++ [.root]) = above ++ [.root] := by
  induction components generalizing front with
  | nil => exact ⟨front, rfl⟩
  | cons c rest ih =>
    have hstep : ∃ above, resolveStep (front ++ [.root]) c = above ++ [.root] := by
      cases c with
      | root => exact ⟨.root :: front, rfl⟩
      | here => exact ⟨front, rfl⟩
      | name text => exact ⟨.name text :: front, rfl⟩
      | up =>
        match front with
        | [] => exact ⟨[], rfl⟩
        | .root :: below => exact ⟨.root :: below, rfl⟩
        | .here :: below => exact ⟨.up :: .here :: below, rfl⟩
        | .up :: below => exact ⟨.up :: .up :: below, rfl⟩
        | .name text :: below => exact ⟨below, rfl⟩
    obtain ⟨above, habove⟩ := hstep
    rw [List.foldl_cons, habove]
    exact ih above

theorem isAbsolute_normalize (p : Path) : p.normalize.isAbsolute = p.isAbsolute := by
  rw [Bool.eq_iff_iff, isAbsolute_iff, components_normalize]
  constructor
  · intro h
    by_contra hp
    rw [resolve] at h
    have hroot := List.mem_reverse.1 (List.mem_of_mem_head? h)
    rcases mem_foldl_resolveStep hroot with hroot | hroot
    · rcases components_of_isAbsolute_eq_false (Bool.eq_false_iff.2 hp) with h | h
      · rw [h] at hroot
        exact root_not_mem_namesOf _ hroot
      · rw [h] at hroot
        exact root_not_mem_namesOf _ (List.mem_of_ne_of_mem Component.noConfusion hroot)
    · cases hroot
  · intro hp
    obtain ⟨above, habove⟩ := exists_foldl_resolveStep_root [] (namesOf p.segments)
    rw [components_of_isAbsolute hp, resolve, List.foldl_cons]
    exact (congrArg (List.head? <| List.reverse ·) habove).trans (by simp)

/-- Behind the root, or behind nothing, there are names only. -/
def IsDownward (p : Path) : Prop :=
  ∃ names, (∀ c ∈ names, ∃ text, c = .name text) ∧
    p.components = (if p.isAbsolute then [.root] else []) ++ names

/-- A plain path leads up from the place where it starts or never. -/
theorem isDownward_normalize {p : Path} (h : p.isAbsolute = true ∨ .up ∉ p.normalize.components) :
    p.normalize.IsDownward := by
  have hnormal := isNormal_resolve p
  rw [← components_normalize] at hnormal
  rcases hnormal.cases with ⟨names, hcomponents, hsegments⟩ | ⟨hroot, hsegments⟩
  · have habsolute : p.normalize.isAbsolute = true := by
      rw [isAbsolute_iff, hcomponents]
      rfl
    refine ⟨names, fun c hc => (hsegments c hc).1.cases.resolve_left (hsegments c hc).2, ?_⟩
    rw [hcomponents, if_pos habsolute]
    rfl
  · have hrelative : p.normalize.isAbsolute = false := by
      rw [← Bool.not_eq_true, isAbsolute_iff]
      exact fun hhead => hroot (List.mem_of_mem_head? hhead)
    have hup : .up ∉ p.normalize.components := by
      refine h.resolve_left fun hp => ?_
      rw [isAbsolute_normalize, hp] at hrelative
      cases hrelative
    refine ⟨p.normalize.components, fun c hc => (hsegments c hc).cases.resolve_left fun hc' => hup (hc' ▸ hc), ?_⟩
    rw [hrelative]
    rfl

/-! ### Paths that match -/

theorem compare_eq_iff {p q : Path} : compare p q = .eq ↔ (p == q) = true := by
  have hcompare : compare p q = compare p.components q.components := rfl
  rw [hcompare, Std.compare_eq_iff_eq, beq_iff]

theorem isEq_compare (p q : Path) : (compare p q).isEq = (p == q) := by
  rw [Bool.eq_iff_iff, Ordering.isEq_iff_eq_eq, compare_eq_iff]

theorem normalize_congr {p q : Path} (h : (p == q) = true) : p.normalize = q.normalize := by
  rw [normalize, normalize, beq_iff.1 h]

theorem isAbsolute_congr {p q : Path} (h : (p == q) = true) : p.isAbsolute = q.isAbsolute := by
  rw [Bool.eq_iff_iff, isAbsolute_iff, isAbsolute_iff, beq_iff.1 h]

/-- Plain paths that match are spelled alike. -/
theorem normalize_eq_of_beq {p q : Path} (h : (p.normalize == q.normalize) = true) :
    p.normalize = q.normalize := by
  rw [← normalize_normalize p, ← normalize_normalize q]
  exact normalize_congr h

/-- Besides slashes and dots, the characters of a path are those of its components. -/
theorem mem_spelling_iff {p : Path} {c : Char} (hslash : c ≠ '/') (hdot : c ≠ '.') :
    c ∈ p.spelling.toList ↔ ∃ component ∈ p.components, c ∈ component.text.toList := by
  constructor
  · intro h
    have hjoin : ['/'].intercalate p.segments = p.spelling.toList := List.intercalate_splitOn '/'
    rw [← hjoin] at h
    rcases Text.mem_intercalate h with h | ⟨s, hs, h⟩
    · exact absurd (List.mem_singleton.1 h) hslash
    · have hvoid : isVoid s = false := by
        rw [isVoid, Bool.or_eq_false_iff, List.isEmpty_eq_false_iff, beq_eq_false_iff_ne]
        constructor
        · exact List.ne_nil_of_mem h
        · rintro rfl
          exact hdot (List.mem_singleton.1 h)
      have hname : Component.ofSegment s ∈ namesOf p.segments :=
        List.mem_map_of_mem (List.mem_filter.2 ⟨hs, by simp [hvoid]⟩)
      refine ⟨_, namesOf_subset_components p hname, ?_⟩
      rwa [Component.text_ofSegment]
  · rintro ⟨component, hcomponent, h⟩
    rcases mem_of_mem_components hcomponent h with h | h | h
    · exact h
    · exact absurd h hslash
    · exact absurd h hdot

end Path

end JarPlan
