import JarPlan.Proofs.Path.Characters
/-!
# A path joined below another

The components of a path are named by its segments, and an absolute path is one whose components start
at the root. A path that is not absolute, joined to `p`, lies below `p`: the segments of the two paths
stand one after the other in the joined path, save that an empty last segment of `p` is lost, and an
empty segment names nothing. The names of files are segments, so there is no slash in them.
-/

namespace JarPlan.Path

/-! ### Components by segments -/

/-- The components that a row of segments names. -/
def componentsOf : List (List Char) → List Component
  | [] :: second :: rest => .root :: ((second :: rest).filter (!isVoid ·)).map Component.ofSegment
  | ['.'] :: rest => .here :: (rest.filter (!isVoid ·)).map Component.ofSegment
  | segments => (segments.filter (!isVoid ·)).map Component.ofSegment

theorem components_eq (p : Path) : p.components = componentsOf p.segments := by
  rw [components, lead, body]
  generalize p.segments = segments
  fun_cases componentsOf segments with
  | case1 => rfl
  | case2 => rfl
  | case3 segments hroot hhere =>
    split
    · exact absurd rfl (hroot _ _)
    · exact absurd rfl (hhere _)
    · rfl

def namesOf (segments : List (List Char)) : List Component :=
  (segments.filter (!isVoid ·)).map Component.ofSegment

theorem namesOf_append (front back : List (List Char)) :
    namesOf (front ++ back) = namesOf front ++ namesOf back := by
  rw [namesOf, List.filter_append, List.map_append, namesOf, namesOf]

theorem root_not_mem_namesOf (segments : List (List Char)) : Component.root ∉ namesOf segments := by
  intro h
  obtain ⟨s, -, hs⟩ := List.mem_map.1 h
  rw [Component.ofSegment] at hs
  split at hs <;> cases hs

/-- Segments of which the first is a name are all names. -/
theorem componentsOf_eq_namesOf {first : List Char} (rest : List (List Char)) (hfirst : isVoid first = false) :
    componentsOf (first :: rest) = namesOf (first :: rest) := by
  rw [componentsOf, namesOf]
  · intro second rest' h
    rw [(List.cons.inj h).1] at hfirst
    cases hfirst
  · intro rest' h
    rw [(List.cons.inj h).1] at hfirst
    cases hfirst

/-- Segments put behind others name what they name, unless they are the first ones after the root. -/
theorem componentsOf_append {front back : List (List Char)} (hfront : front ≠ [])
    (hroot : front ≠ [[]] ∨ back ≠ []) :
    componentsOf (front ++ back) =
      (if front = [[]] then [.root] else componentsOf front) ++ namesOf back := by
  match front with
  | [] => exact absurd rfl hfront
  | [[]] =>
    have hback : back ≠ [] := hroot.resolve_left (not_not_intro rfl)
    obtain ⟨second, rest, rfl⟩ := List.exists_cons_of_ne_nil hback
    rfl
  | [] :: second :: rest =>
    exact congrArg (Component.root :: ·) (namesOf_append (second :: rest) back)
  | (c :: segment) :: rest =>
    rw [if_neg (by simp)]
    by_cases hdot : c :: segment = ['.']
    · rw [hdot]
      exact congrArg (Component.here :: ·) (namesOf_append rest back)
    · have hfirst : isVoid (c :: segment) = false := by simpa [isVoid] using hdot
      rw [List.cons_append, componentsOf_eq_namesOf _ hfirst, componentsOf_eq_namesOf _ hfirst,
        ← List.cons_append, namesOf_append]

theorem segments_ne_nil (p : Path) : p.segments ≠ [] := List.splitOn_ne_nil '/' _

theorem segments_ne_singleton {p : Path} (hp : ¬ p.spelling.isEmpty) : p.segments ≠ [[]] := by
  intro h
  apply hp
  have hjoin : ['/'].intercalate (p.spelling.toList.splitOn '/') = p.spelling.toList :=
    List.intercalate_splitOn '/'
  rw [segments] at h
  rw [h] at hjoin
  rw [String.isEmpty_iff, ← String.toList_eq_nil_iff, ← hjoin]
  rfl

/-! ### Absolute paths -/

theorem segments_of_isAbsolute {p : Path} (hp : p.isAbsolute = true) :
    ∃ second rest, p.segments = [] :: second :: rest := by
  obtain ⟨rest, hrest⟩ := List.head?_eq_some_iff.1 (eq_of_beq hp)
  obtain ⟨second, others, hcut⟩ := List.exists_cons_of_ne_nil (List.splitOn_ne_nil '/' rest)
  refine ⟨second, others, ?_⟩
  rw [segments, hrest, ← hcut]
  exact List.splitOn_append_cons_self [] rest

theorem components_of_isAbsolute {p : Path} (hp : p.isAbsolute = true) :
    p.components = .root :: namesOf p.segments := by
  obtain ⟨second, rest, hsegments⟩ := segments_of_isAbsolute hp
  rw [components_eq, hsegments]
  rfl

theorem components_of_isAbsolute_eq_false {p : Path} (hp : p.isAbsolute = false) :
    p.components = namesOf p.segments ∨ p.components = .here :: namesOf p.segments := by
  rw [components_eq, segments]
  cases hspelling : p.spelling.toList with
  | nil => exact .inl rfl
  | cons c rest =>
    have hc : (c == '/') = false := by
      rw [isAbsolute, hspelling] at hp
      exact hp
    obtain ⟨first, others, hcut⟩ := List.exists_cons_of_ne_nil (List.splitOn_ne_nil '/' rest)
    rw [List.splitOn_cons_eq_if_modifyHead, hc, if_neg Bool.false_ne_true, hcut, List.modifyHead_cons]
    by_cases hdot : c :: first = ['.']
    · rw [hdot]
      exact .inr rfl
    · left
      apply componentsOf_eq_namesOf
      rw [isVoid, List.isEmpty_cons, Bool.false_or, beq_eq_false_iff_ne]
      exact hdot

theorem isAbsolute_eq_false_of_not_mem {p : Path} (h : '/' ∉ p.spelling.toList) : p.isAbsolute = false := by
  rw [isAbsolute, beq_eq_false_iff_ne]
  exact fun hhead => h (List.mem_of_mem_head? hhead)

/-- The components of an absolute path, and of no other, start at the root. -/
theorem isAbsolute_iff {p : Path} : p.isAbsolute = true ↔ p.components.head? = some .root := by
  constructor
  · intro hp
    rw [components_of_isAbsolute hp]
    rfl
  · intro hhead
    by_contra hp
    rcases components_of_isAbsolute_eq_false (Bool.eq_false_iff.2 hp) with h | h
    · rw [h] at hhead
      exact root_not_mem_namesOf _ (List.mem_of_mem_head? hhead)
    · rw [h] at hhead
      cases hhead

theorem namesOf_subset_components (p : Path) : namesOf p.segments ⊆ p.components := by
  by_cases hp : p.isAbsolute = true
  · rw [components_of_isAbsolute hp]
    exact List.subset_cons_self ..
  · rcases components_of_isAbsolute_eq_false (Bool.eq_false_iff.2 hp) with h | h
    · rw [h]
      exact List.Subset.refl _
    · rw [h]
      exact List.subset_cons_self ..

/-! ### Joining -/

/-- The segments of both paths, where there is no slash yet at the end of the first. -/
theorem segments_join {p q : Path} (hp : ¬ p.spelling.isEmpty) (hslash : p.spelling.toList.getLast? ≠ some '/')
    (hq : q.isAbsolute = false) : (p.join q).segments = p.segments ++ q.segments := by
  rw [join, hq, if_neg Bool.false_ne_true, if_neg (by simp [hp, hslash]), segments, String.toList_append,
    String.toList_append, List.append_assoc]
  exact List.splitOn_append_cons_self _ _

theorem components_join {p q : Path} (hp : ¬ p.spelling.isEmpty) (hq : q.isAbsolute = false) :
    (p.join q).components = p.components ++ namesOf q.segments := by
  by_cases hslash : p.spelling.toList.getLast? = some '/'
  · -- the last segment of `p` is empty, and the first one of `q` takes its place
    obtain ⟨init, hinit⟩ := List.getLast?_eq_some_iff.1 hslash
    have hsegments : p.segments = init.splitOn '/' ++ [[]] := by
      rw [segments, hinit, List.splitOn_append_cons_self, List.splitOn_nil]
    have hjoin : segments ⟨p.spelling ++ q.spelling⟩ = init.splitOn '/' ++ q.segments := by
      rw [segments, String.toList_append, hinit, List.append_assoc, List.singleton_append,
        List.splitOn_append_cons_self, segments]
    rw [join, hq, if_neg Bool.false_ne_true, if_pos (by simp [hslash]), components_eq, components_eq,
      hsegments, hjoin, componentsOf_append (List.splitOn_ne_nil _ _) (.inr q.segments_ne_nil),
      componentsOf_append (List.splitOn_ne_nil _ _) (.inr (by simp)), List.append_assoc]
    rfl
  · rw [components_eq, components_eq, segments_join hp hslash hq,
      componentsOf_append p.segments_ne_nil (.inl (segments_ne_singleton hp)),
      if_neg (segments_ne_singleton hp)]

theorem join_of_isEmpty {p q : Path} (hp : p.spelling.isEmpty) : p.join q = q := by
  rw [String.isEmpty_iff] at hp
  rw [join, hp]
  split
  · rfl
  · exact congrArg Path.mk String.empty_append

theorem isAbsolute_join (p : Path) {q : Path} (hq : q.isAbsolute = false) :
    (p.join q).isAbsolute = p.isAbsolute := by
  by_cases hp : p.spelling.isEmpty
  · have hempty : p.isAbsolute = false := by
      rw [isAbsolute, String.isEmpty_iff.1 hp]
      rfl
    rw [join_of_isEmpty hp, hq, hempty]
  · have hhead (s : String) : (p.spelling ++ s).toList.head? = p.spelling.toList.head? := by
      rw [String.toList_append]
      exact List.head?_append_of_ne_nil _ fun hnil => hp (String.isEmpty_iff.2 (String.toList_eq_nil_iff.1 hnil))
    rw [join, hq, if_neg Bool.false_ne_true, isAbsolute, isAbsolute]
    split
    · rw [hhead]
    · rw [String.append_assoc, hhead]

theorem startsWith_iff {p dir : Path} : p.startsWith dir = true ↔ dir.components <+: p.components :=
  List.isPrefixOf_iff_prefix

/-- What is joined to a path and is not absolute lies below it. -/
theorem join_startsWith (p : Path) {q : Path} (hq : q.isAbsolute = false) :
    (p.join q).startsWith p = true := by
  rw [startsWith_iff]
  by_cases hp : p.spelling.isEmpty
  · rw [show p = ⟨""⟩ from congrArg Path.mk (String.isEmpty_iff.1 hp)]
    exact List.nil_prefix
  · rw [components_join hp hq]
    exact List.prefix_append _ _

/-- An entry of a directory lies in it, whatever the name, as long as it is no absolute path. -/
theorem entry_startsWith (p : Path) {name : String} (hname : name.toList.head? ≠ some '/') :
    (p.entry name).startsWith p = true := by
  apply join_startsWith
  simpa [isAbsolute] using hname

/-! ### Joining twice -/

theorem join_of_isAbsolute (p : Path) {q : Path} (hq : q.isAbsolute = true) : p.join q = q := if_pos hq

/-- What stands between a path and one that is joined to it and is not absolute. -/
def joint (p : Path) : String :=
  if p.spelling.isEmpty || p.spelling.toList.getLast? == some '/' then "" else "/"

theorem join_eq_append (p : Path) {q : Path} (hq : q.isAbsolute = false) :
    p.join q = ⟨p.spelling ++ p.joint ++ q.spelling⟩ := by
  rw [join, hq, if_neg Bool.false_ne_true, joint]
  split
  · rw [String.append_empty]
  · rfl

theorem joint_of_isEmpty {p : Path} (hp : p.spelling.isEmpty) : p.joint = "" := by
  rw [joint, hp, Bool.true_or, if_pos rfl]

theorem joint_append (s : String) {q : Path} (hq : ¬ q.spelling.isEmpty) : joint ⟨s ++ q.spelling⟩ = q.joint := by
  have hne : q.spelling.toList ≠ [] := fun h => hq (String.isEmpty_iff.2 (String.toList_eq_nil_iff.1 h))
  have hlast : (s ++ q.spelling).toList.getLast? = q.spelling.toList.getLast? := by
    rw [String.toList_append, List.getLast?_append_of_ne_nil _ hne]
  have hempty : (s ++ q.spelling).isEmpty = q.spelling.isEmpty := by
    rw [Bool.eq_iff_iff, String.isEmpty_iff, String.isEmpty_iff, String.append_eq_empty_iff]
    exact and_iff_right_of_imp fun h => absurd (String.isEmpty_iff.2 h) hq
  rw [joint, hlast, hempty, joint]

/-- A path with its joint needs no other. -/
theorem joint_append_joint (p : Path) : joint ⟨p.spelling ++ p.joint⟩ = "" := by
  rw [joint.eq_def p]
  split
  · rename_i hend
    rw [String.append_empty, joint, if_pos hend]
  · rw [joint, String.toList_append, if_pos]
    rw [show "/".toList = ['/'] from rfl, List.getLast?_concat]
    simp

theorem joint_join (p : Path) {q : Path} (hq : q.isAbsolute = false) : (p.join q).joint = q.joint := by
  rw [join_eq_append p hq]
  by_cases hempty : q.spelling.isEmpty
  · rw [joint_of_isEmpty hempty, String.isEmpty_iff.1 hempty, String.append_empty, joint_append_joint]
  · exact joint_append _ hempty

theorem join_assoc (p q r : Path) : p.join (q.join r) = (p.join q).join r := by
  by_cases hr : r.isAbsolute = true
  · rw [join_of_isAbsolute q hr, join_of_isAbsolute p hr, join_of_isAbsolute _ hr]
  · have hrel : r.isAbsolute = false := Bool.eq_false_iff.2 hr
    have hqr : (q.join r).isAbsolute = q.isAbsolute := isAbsolute_join q hrel
    by_cases hq : q.isAbsolute = true
    · rw [join_of_isAbsolute p hq, join_of_isAbsolute p (hqr.trans hq)]
    · rw [Bool.not_eq_true] at hq
      rw [join_eq_append p (hqr.trans hq), join_eq_append (p.join q) hrel, joint_join p hq,
        join_eq_append q hrel, join_eq_append p hq]
      simp only [String.append_assoc]

/-! ### File names -/

theorem components_entry (p : Path) {name : String} (hname : components ⟨name⟩ = [.name name]) :
    (p.entry name).components = p.components ++ [.name name] := by
  have hrel : isAbsolute ⟨name⟩ = false := by
    rw [Bool.eq_false_iff]
    intro habsolute
    rw [isAbsolute_iff, hname] at habsolute
    cases habsolute
  by_cases hp : p.spelling.isEmpty
  · rw [entry, join_of_isEmpty hp, hname, show p = ⟨""⟩ from congrArg Path.mk (String.isEmpty_iff.1 hp)]
    rfl
  · rw [entry, components_join hp hrel]
    rcases components_of_isAbsolute_eq_false hrel with h | h
    · rw [← h, hname]
    · rw [hname] at h
      cases h

/-- Matching paths have the same file name. -/
theorem fileName?_congr {p q : Path} (h : (p == q) = true) : p.fileName? = q.fileName? := by
  rw [fileName?, fileName?, beq_iff.1 h]

theorem fileName?_entry (p : Path) {name : String} (hname : components ⟨name⟩ = [.name name]) :
    (p.entry name).fileName? = some name := by
  rw [fileName?, components_entry p hname, List.getLast?_concat]

/-- A name among the components is that of a segment. -/
theorem exists_segment_of_mem_components {p : Path} {text : String} (h : Component.name text ∈ p.components) :
    ∃ s ∈ p.segments, isVoid s = false ∧ Component.ofSegment s = .name text := by
  rw [components, List.mem_append, List.mem_map] at h
  rcases h with h | ⟨s, hs, h⟩
  · rw [lead] at h
    split at h <;> simp at h
  · obtain ⟨hbody, hvoid⟩ := List.mem_filter.1 hs
    exact ⟨s, mem_body hbody, by simpa using hvoid, h⟩

theorem slash_not_mem_of_mem_components {p : Path} {text : String} (h : Component.name text ∈ p.components) :
    '/' ∉ text.toList := by
  obtain ⟨s, hs, -, hname⟩ := exists_segment_of_mem_components h
  rw [Component.ofSegment] at hname
  split at hname
  · cases hname
  · obtain rfl := Component.name.inj hname
    rw [String.toList_ofList]
    exact Text.not_mem_of_mem_splitOn hs

theorem getLast?_of_fileName?_eq_some {p : Path} {name : String} (h : p.fileName? = some name) :
    p.components.getLast? = some (.name name) := by
  rw [fileName?] at h
  split at h
  · rename_i text hlast
    rw [hlast, Option.some.inj h]
  · cases h

theorem slash_not_mem_fileName {p : Path} {name : String} (h : p.fileName? = some name) :
    '/' ∉ name.toList :=
  slash_not_mem_of_mem_components (List.mem_of_getLast? (getLast?_of_fileName?_eq_some h))

end JarPlan.Path
