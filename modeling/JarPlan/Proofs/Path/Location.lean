import JarPlan.Proofs.Path.Tidy
/-!
# Where paths lead

A path is followed from a directory, component by component: the root leads to the top, a name one level down
and `..` one level up, save at the top, which is its own parent. Working out the dots of a path does not change
where it leads. Plain paths can be told apart by where they lead, so a plain path is the one spelling of a
location, and what is said of locations holds of plain paths as texts. A joined path is followed in two parts,
and this is why either part may be made plain beforehand.
-/

namespace JarPlan

namespace Component

/-- The directory that a component leads to from `dir`; a directory is given by the names that lead to it from
the top. -/
def follow (dir : List String) : Component → List String
  | root => []
  | here => dir
  | up => dir.dropLast
  | name text => dir ++ [text]

end Component

namespace Path

/-- The directory or file that a path leads to from `start`. -/
def location (p : Path) (start : List String) : List String := p.components.foldl Component.follow start

/-! ### Dots worked out -/

theorem foldl_follow_resolveStep (start : List String) (stack : List Component) (c : Component) :
    (resolveStep stack c).reverse.foldl Component.follow start =
      Component.follow (stack.reverse.foldl Component.follow start) c := by
  have hpush : (c :: stack).reverse.foldl Component.follow start =
      Component.follow (stack.reverse.foldl Component.follow start) c := by
    rw [List.reverse_cons, List.foldl_append, List.foldl_cons, List.foldl_nil]
  cases c with
  | root => exact hpush
  | here => rfl
  | name text => exact hpush
  | up =>
    match stack with
    | [] => exact hpush
    | .here :: below => exact hpush
    | .up :: below => exact hpush
    | .root :: below =>
      -- there is nothing above the top
      have hstays : resolveStep (.root :: below) .up = .root :: below := rfl
      rw [hstays, List.reverse_cons, List.foldl_append]
      rfl
    | .name text :: below =>
      have htaken : resolveStep (.name text :: below) .up = below := rfl
      rw [htaken, List.reverse_cons, List.foldl_append, List.foldl_cons, List.foldl_nil, Component.follow,
        Component.follow, List.dropLast_concat]

theorem foldl_follow_foldl_resolveStep (start : List String) (stack components : List Component) :
    (components.foldl resolveStep stack).reverse.foldl Component.follow start =
      components.foldl Component.follow (stack.reverse.foldl Component.follow start) := by
  induction components generalizing stack with
  | nil => rfl
  | cons c rest ih => rw [List.foldl_cons, List.foldl_cons, ih, foldl_follow_resolveStep]

theorem foldl_follow_resolve (start : List String) (components : List Component) :
    (resolve components).foldl Component.follow start = components.foldl Component.follow start :=
  foldl_follow_foldl_resolveStep start [] components

theorem location_normalize (p : Path) : p.normalize.location = p.location := by
  funext start
  rw [location, components_normalize, foldl_follow_resolve, location]

/-! ### Joined paths -/

/-- An absolute path leads to one location from everywhere. -/
theorem location_of_isAbsolute {p : Path} (hp : p.isAbsolute = true) (start other : List String) :
    p.location start = p.location other := by
  rw [location, location, components_of_isAbsolute hp]
  rfl

theorem location_join (p q : Path) (start : List String) :
    (p.join q).location start = q.location (p.location start) := by
  by_cases hq : q.isAbsolute = true
  · rw [join_of_isAbsolute p hq, location_of_isAbsolute hq]
  · rw [location, ← foldl_follow_resolve, resolve_components_join p (Bool.eq_false_iff.2 hq),
      foldl_follow_resolve, List.foldl_append, location, location]

/-! ### The spelling of plain paths -/

/-- A text that names an entry of a directory: it has no slash and is neither empty nor one or two dots. -/
def IsEntryName (text : String) : Prop := text ≠ "" ∧ '/' ∉ text.toList ∧ text ≠ "." ∧ text ≠ ".."

instance : DecidablePred IsEntryName := fun text =>
  inferInstanceAs (Decidable (text ≠ "" ∧ '/' ∉ text.toList ∧ text ≠ "." ∧ text ≠ ".."))

theorem isEntryName_of_isSegment {text : String} (h : (Component.name text).IsSegment) : IsEntryName text := by
  obtain ⟨hslash, hvoid, hname⟩ := h
  refine ⟨?_, hslash, ?_, ?_⟩ <;> rintro rfl
  · cases hvoid
  · cases hvoid
  · cases hname

theorem exists_map_name {row : List Component} (h : ∀ c ∈ row, c.IsSegment ∧ c ≠ .up) :
    ∃ names : List String, row = names.map .name ∧ ∀ name ∈ names, IsEntryName name := by
  induction row with
  | nil => exact ⟨[], rfl, List.forall_mem_nil _⟩
  | cons c rest ih =>
    obtain ⟨⟨hsegment, hup⟩, hrest⟩ := List.forall_mem_cons.1 h
    obtain ⟨text, rfl⟩ := hsegment.cases.resolve_left hup
    obtain ⟨names, rfl, hnames⟩ := ih hrest
    exact ⟨text :: names, rfl, List.forall_mem_cons.2 ⟨isEntryName_of_isSegment hsegment, hnames⟩⟩

section Absolute
variable {p : Path}

theorem components_normalize_of_isAbsolute (hp : p.isAbsolute = true) :
    ∃ names : List String, (∀ name ∈ names, IsEntryName name) ∧
      p.normalize.components = .root :: names.map .name := by
  rw [← isAbsolute_normalize, isAbsolute_iff] at hp
  have hnormal := isNormal_resolve p
  rw [← components_normalize] at hnormal
  rcases hnormal.cases with ⟨row, hcomponents, hrow⟩ | ⟨hroot, -⟩
  · obtain ⟨names, rfl, hnames⟩ := exists_map_name hrow
    exact ⟨names, hnames, hcomponents⟩
  · exact absurd (List.mem_of_mem_head? hp) hroot

theorem components_normalize_of_isAbsolute_eq_false (hp : p.isAbsolute = false) :
    ∃ (ups : Nat) (names : List String), (∀ name ∈ names, IsEntryName name) ∧
      p.normalize.components = List.replicate ups .up ++ names.map .name := by
  rw [← isAbsolute_normalize] at hp
  obtain ⟨base, row, hcomponents, hbase, hrow⟩ := isNormal_resolve p
  obtain ⟨names, rfl, hnames⟩ := exists_map_name hrow
  rw [← components_normalize] at hcomponents
  rcases hbase with rfl | ⟨ups, rfl⟩
  · have habsolute : p.normalize.isAbsolute = true := by
      rw [isAbsolute_iff, hcomponents]
      rfl
    rw [habsolute] at hp
    cases hp
  · exact ⟨ups, names, hnames, hcomponents⟩

end Absolute

/-- What is spelled from the root and names, and from some `..` and names. -/
theorem spelling_ofComponents_root (names : List String) :
    (ofComponents (.root :: names.map .name)).spelling = "/" ++ "/".intercalate names := by
  rw [ofComponents, ofParts, ← String.toList_inj, String.toList_ofList, String.toList_append,
    String.toList_intercalate, List.map_map]
  rfl

theorem spelling_ofComponents_ups (ups : Nat) (names : List String) :
    (ofComponents (List.replicate ups .up ++ names.map .name)).spelling =
      "/".intercalate (List.replicate ups ".." ++ names) := by
  rw [ofComponents, ofParts, ← String.toList_inj, String.toList_ofList, String.toList_intercalate]
  · simp only [List.map_append, List.map_replicate, List.map_map]
    rfl
  · intro rest hrest
    have hroot : Component.root ∈ List.replicate ups Component.up ++ names.map .name := by
      rw [hrest]
      exact List.mem_cons_self
    simp at hroot

/-- A plain path is spelled from its components. -/
theorem normalize_eq_ofComponents (p : Path) : p.normalize = ofComponents p.normalize.components := by
  rw [components_normalize, normalize]

/-! ### Plain paths told apart -/

theorem foldl_follow_names (start names : List String) :
    (names.map Component.name).foldl Component.follow start = start ++ names := by
  induction names generalizing start with
  | nil => exact (List.append_nil start).symm
  | cons name rest ih => rw [List.map_cons, List.foldl_cons, ih, Component.follow, List.append_assoc,
      List.singleton_append]

/-- From deep enough, every `..` takes a name away. -/
theorem foldl_follow_ups (left ups : Nat) (name : String) :
    (List.replicate ups Component.up).foldl Component.follow (List.replicate (left + ups) name) =
      List.replicate left name := by
  induction ups with
  | zero => rfl
  | succ ups ih =>
    rw [List.replicate_succ, List.foldl_cons, Component.follow, List.dropLast_replicate]
    exact ih

/-- What stands behind any one name, repeated, is the same only behind the same number of them. -/
theorem eq_of_replicate_append {k n : Nat} {front back : List String}
    (h : ∀ name, List.replicate k name ++ front = List.replicate n name ++ back) : k = n ∧ front = back := by
  induction k generalizing n with
  | zero =>
    cases n with
    | zero => exact ⟨rfl, h ""⟩
    | succ n =>
      -- the first name in front would be any name
      have hnames := (h "a").symm.trans (h "b")
      exact absurd (List.cons.inj hnames).1 (by decide)
  | succ k ih =>
    cases n with
    | zero =>
      have hnames := (h "a").trans (h "b").symm
      exact absurd (List.cons.inj hnames).1 (by decide)
    | succ n =>
      obtain ⟨hcount, hrest⟩ := ih fun name => (List.cons.inj (h name)).2
      exact ⟨congrArg Nat.succ hcount, hrest⟩

variable {p q : Path}

theorem components_normalize_eq_of_location (habsolute : p.isAbsolute = q.isAbsolute)
    (h : p.location = q.location) : p.normalize.components = q.normalize.components := by
  rw [← location_normalize p, ← location_normalize q] at h
  by_cases hp : p.isAbsolute = true
  · obtain ⟨names, -, hnames⟩ := components_normalize_of_isAbsolute hp
    obtain ⟨others, -, hothers⟩ := components_normalize_of_isAbsolute (habsolute ▸ hp)
    have hstart := congrFun h []
    rw [location, location, hnames, hothers, List.foldl_cons, List.foldl_cons, foldl_follow_names,
      foldl_follow_names] at hstart
    rw [hnames, hothers, List.append_cancel_left hstart]
  · have hp := Bool.eq_false_iff.2 hp
    obtain ⟨ups, names, -, hnames⟩ := components_normalize_of_isAbsolute_eq_false hp
    obtain ⟨others, behind, -, hothers⟩ := components_normalize_of_isAbsolute_eq_false (habsolute ▸ hp)
    obtain ⟨hups, hbehind⟩ : others = ups ∧ names = behind := by
      apply eq_of_replicate_append
      intro name
      -- a start that is deep enough for both paths
      have hstart := congrFun h (List.replicate (others + ups) name)
      rw [location, location, hnames, hothers, List.foldl_append, List.foldl_append, foldl_follow_ups,
        Nat.add_comm others, foldl_follow_ups, foldl_follow_names, foldl_follow_names] at hstart
      exact hstart
    rw [hnames, hothers, hups, hbehind]

/-- A plain path is given by where it leads, and by whether it is absolute. -/
theorem normalize_eq_normalize_iff :
    p.normalize = q.normalize ↔ p.isAbsolute = q.isAbsolute ∧ p.location = q.location := by
  constructor
  · intro h
    rw [← isAbsolute_normalize p, ← isAbsolute_normalize q, ← location_normalize p, ← location_normalize q, h]
    exact ⟨rfl, rfl⟩
  · rintro ⟨habsolute, h⟩
    rw [normalize_eq_ofComponents, components_normalize_eq_of_location habsolute h, ← normalize_eq_ofComponents]

/-- Normalizing spells the location of a path. An absolute path becomes a slash and names, any other some `..`
and names, with one slash between them; it leads where it led and does not change again. Two paths get one
spelling exactly when both are absolute or neither is and they lead to one location from everywhere, as paths
that match do. -/
theorem normalize_spells_location (p : Path) :
    (p.isAbsolute = true → ∃ names : List String, (∀ name ∈ names, IsEntryName name) ∧
      p.normalize.spelling = "/" ++ "/".intercalate names) ∧
    (p.isAbsolute = false → ∃ (ups : Nat) (names : List String), (∀ name ∈ names, IsEntryName name) ∧
      p.normalize.spelling = "/".intercalate (List.replicate ups ".." ++ names)) ∧
    p.normalize.location = p.location ∧
    p.normalize.normalize = p.normalize ∧
    (∀ q : Path, p.normalize = q.normalize ↔ p.isAbsolute = q.isAbsolute ∧ p.location = q.location) ∧
    ∀ q : Path, (p == q) = true → p.normalize = q.normalize := by
  refine ⟨fun hp => ?_, fun hp => ?_, location_normalize p, normalize_normalize p,
    fun q => normalize_eq_normalize_iff, fun q => normalize_congr⟩
  · obtain ⟨names, hnames, hcomponents⟩ := components_normalize_of_isAbsolute hp
    refine ⟨names, hnames, ?_⟩
    rw [normalize_eq_ofComponents, hcomponents, spelling_ofComponents_root]
  · obtain ⟨ups, names, hnames, hcomponents⟩ := components_normalize_of_isAbsolute_eq_false hp
    refine ⟨ups, names, hnames, ?_⟩
    rw [normalize_eq_ofComponents, hcomponents, spelling_ofComponents_ups]

/-- A path with dots, doubled slashes and a `..` at the top has the spelling of a plain one, and a path that
climbs over its start keeps one `..`. -/
theorem dotted_paths_spell_locations :
    (∃ names : List String, (∀ name ∈ names, IsEntryName name) ∧ "/a/c" = "/" ++ "/".intercalate names) ∧
      (∃ (ups : Nat) (names : List String), (∀ name ∈ names, IsEntryName name) ∧
        "../b" = "/".intercalate (List.replicate ups ".." ++ names)) ∧
      normalize ⟨"/../a//b/./../c/"⟩ = normalize ⟨"//a/c/."⟩ := by
  obtain ⟨habsolute, -, -, -, hiff, -⟩ := normalize_spells_location ⟨"/../a//b/./../c/"⟩
  obtain ⟨-, hrelative, -⟩ := normalize_spells_location ⟨"a/../../b/"⟩
  have hfirst : normalize ⟨"/../a//b/./../c/"⟩ = ⟨"/a/c"⟩ := by decide +kernel
  have hsecond : normalize ⟨"a/../../b/"⟩ = ⟨"../b"⟩ := by decide +kernel
  rw [hfirst] at habsolute
  rw [hsecond] at hrelative
  refine ⟨habsolute (by decide), hrelative (by decide), (hiff ⟨"//a/c/."⟩).2 ⟨by decide, ?_⟩⟩
  have hdotted : components ⟨"/../a//b/./../c/"⟩ = [.root, .up, .name "a", .name "b", .up, .name "c"] := by
    decide +kernel
  have hplain : components ⟨"//a/c/."⟩ = [.root, .name "a", .name "c"] := by decide +kernel
  funext start
  rw [location, location, hdotted, hplain]
  rfl

/-! ### Joined paths made plain -/

theorem isAbsolute_join_congr {a b a' b' : Path} (ha : a.isAbsolute = a'.isAbsolute)
    (hb : b.isAbsolute = b'.isAbsolute) : (a.join b).isAbsolute = (a'.join b').isAbsolute := by
  by_cases habsolute : b.isAbsolute = true
  · rw [join_of_isAbsolute a habsolute, join_of_isAbsolute a' (hb ▸ habsolute), hb]
  · have hrelative := Bool.eq_false_iff.2 habsolute
    rw [isAbsolute_join a hrelative, isAbsolute_join a' (hb ▸ hrelative), ha]

theorem normalize_join_normalize (a b : Path) : (a.join b).normalize = (a.normalize.join b.normalize).normalize := by
  rw [normalize_eq_normalize_iff]
  constructor
  · exact isAbsolute_join_congr (isAbsolute_normalize a).symm (isAbsolute_normalize b).symm
  · funext start
    rw [location_join, location_join, location_normalize, location_normalize]

/-- Paths may be made plain before they are joined. So the place of a path below an absolute root does not depend
on whether it is made plain first; a place is absolute and plain and is its own place; and an absolute path
without its root, where it lies below it, is put back in its place, however the root is spelled. -/
theorem resolving_respects_normalizing :
    (∀ a b : Path, (a.join b).normalize = (a.normalize.join b.normalize).normalize) ∧
    ∀ root : Path, root.isAbsolute = true →
      (∀ p : Path, root.absolutize p = root.absolutize p.normalize) ∧
      (∀ p : Path, root.absolutize (root.absolutize p) = root.absolutize p ∧
        (root.absolutize p).isAbsolute = true ∧ (root.absolutize p).normalize = root.absolutize p) ∧
      ∀ p : Path, p.isAbsolute = true → root.absolutize (root.relativize p.normalize) = p.normalize := by
  refine ⟨normalize_join_normalize, fun root hroot => ⟨fun p => (absolutize_normalize root p).symm,
    fun p => ?_, fun p hp => ?_⟩⟩
  · have habsolute := isAbsolute_absolutize hroot p
    have hplain := normalize_absolutize root p
    refine ⟨?_, habsolute, hplain⟩
    rw [absolutize_of_isAbsolute root habsolute, hplain]
  · rw [absolutize_relativize hroot, absolutize_normalize, absolutize_of_isAbsolute root hp]

/-- A path that leads up out of the one before it, a root that itself leads up, and a root above its path. -/
theorem climbing_root_respects_normalizing :
    (Path.join ⟨"lib/x"⟩ ⟨"../y/./z"⟩).normalize = (Path.join ⟨"lib/x"⟩ ⟨"../y/z"⟩).normalize ∧
      absolutize ⟨"/repo/.."⟩ (relativize ⟨"/repo/.."⟩ ⟨"/opt/a.jar"⟩) = ⟨"/opt/a.jar"⟩ ∧
      absolutize ⟨"/repo"⟩ (relativize ⟨"/repo"⟩ ⟨"/repo/a.jar"⟩) = ⟨"/repo/a.jar"⟩ := by
  obtain ⟨hjoin, hroots⟩ := resolving_respects_normalizing
  obtain ⟨-, -, hclimbing⟩ := hroots ⟨"/repo/.."⟩ (by decide)
  obtain ⟨-, -, hplain⟩ := hroots ⟨"/repo"⟩ (by decide)
  have hopt : normalize ⟨"/opt/./a.jar"⟩ = ⟨"/opt/a.jar"⟩ := by decide +kernel
  have hrepo : normalize ⟨"/repo//a.jar"⟩ = ⟨"/repo/a.jar"⟩ := by decide +kernel
  have hlib : normalize ⟨"lib/x"⟩ = ⟨"lib/x"⟩ := by decide +kernel
  have hdotted : normalize ⟨"../y/./z"⟩ = ⟨"../y/z"⟩ := by decide +kernel
  refine ⟨?_, ?_, ?_⟩
  · rw [hjoin, hlib, hdotted]
  · rw [← hopt]
    exact hclimbing _ (by decide)
  · rw [← hrepo]
    exact hplain _ (by decide)

end Path

end JarPlan
