import JarPlan.Proofs.Path.Relative
/-!
# Tidy paths

A path is tidy when nothing in its spelling is to spare: it is made of names with one slash between them,
behind the root or behind nothing. Plain paths are tidy, and so is what comes of tidy paths by joining, by
going to the directory above and by taking off a root, although a `..` in the middle may keep it from being
plain. Tidy paths that match are one text, so a set of them does not depend on the order in which it was
filled.
-/

namespace JarPlan.Path

/-- A segment that names something. -/
def IsName (s : List Char) : Prop := '/' ∉ s ∧ isVoid s = false

theorem IsName.ne_nil {s : List Char} (h : IsName s) : s ≠ [] := by
  rintro rfl
  have hvoid := h.2
  cases hvoid

instance : DecidablePred IsName := fun s => inferInstanceAs (Decidable ('/' ∉ s ∧ isVoid s = false))

theorem isVoid_eq_false_of_mem {s : List Char} {c : Char} (hc : c ∈ s) (hdot : c ≠ '.') : isVoid s = false := by
  rw [isVoid, Bool.or_eq_false_iff, List.isEmpty_eq_false_iff, beq_eq_false_iff_ne]
  constructor
  · exact List.ne_nil_of_mem hc
  · rintro rfl
    exact hdot (List.mem_singleton.1 hc)

/-- Names with one slash between them, behind the root or behind nothing. -/
inductive IsTidy : Path → Prop where
  | relative (names : List (List Char)) (h : ∀ s ∈ names, IsName s) : IsTidy (ofParts none names)
  | absolute (names : List (List Char)) (h : ∀ s ∈ names, IsName s) : IsTidy (ofParts (some .root) names)

/-! ### Components -/

section Names
variable {names : List (List Char)} (h : ∀ s ∈ names, IsName s)
include h

theorem slash_not_mem_of_isName : ∀ s ∈ names, '/' ∉ s := fun s hs => (h s hs).1

theorem namesOf_eq_map : namesOf names = names.map Component.ofSegment := by
  rw [namesOf, List.filter_eq_self.2 fun s hs => by simp [(h s hs).2]]

theorem components_relative : (ofParts none names).components = names.map Component.ofSegment := by
  rw [components_ofParts_none (slash_not_mem_of_isName h) fun s hs => (h s (List.mem_of_mem_head? hs)).2,
    namesOf_eq_map h]

theorem components_absolute : (ofParts (some .root) names).components = .root :: names.map Component.ofSegment := by
  rw [components_ofParts_root (slash_not_mem_of_isName h), namesOf_eq_map h]

theorem isAbsolute_relative : (ofParts none names).isAbsolute = false := by
  rw [← Bool.not_eq_true, isAbsolute_iff, components_relative h, ← namesOf_eq_map h]
  exact fun hroot => root_not_mem_namesOf _ (List.mem_of_mem_head? hroot)

end Names

theorem isAbsolute_absolute (names : List (List Char)) : (ofParts (some .root) names).isAbsolute = true := by
  rw [isAbsolute, ofParts, String.toList_ofList]
  rfl

theorem isName_of_mem_components {p : Path} {text : String} (h : Component.name text ∈ p.components) :
    IsName text.toList := by
  obtain ⟨s, -, hvoid, hname⟩ := exists_segment_of_mem_components h
  have htext : text.toList = s := by
    rw [← Component.text_ofSegment s, hname, Component.text]
  refine ⟨slash_not_mem_of_mem_components h, ?_⟩
  rw [htext]
  exact hvoid

/-- Two dots are read as the component that leads up. -/
theorem ne_up_of_mem_components {p : Path} {text : String} (h : Component.name text ∈ p.components) :
    text ≠ ".." := by
  rintro rfl
  obtain ⟨s, -, -, hname⟩ := exists_segment_of_mem_components h
  have hdots : s = ['.', '.'] := by
    rw [← Component.text_ofSegment s, hname]
    rfl
  rw [hdots] at hname
  cases hname

theorem ofSegment_injective : Function.Injective Component.ofSegment := fun s t h => by
  rw [← Component.text_ofSegment s, h, Component.text_ofSegment]

section Spelling
variable {p q : Path}

/-- The spelling of a tidy path can be read off its components. -/
theorem IsTidy.eq_of_beq (hp : p.IsTidy) (hq : q.IsTidy) (h : (p == q) = true) : p = q := by
  have habsolute := isAbsolute_congr h
  rw [beq_iff] at h
  cases hp with
  | relative names hnames =>
    cases hq with
    | relative others hothers =>
      rw [components_relative hnames, components_relative hothers] at h
      rw [ofSegment_injective.list_map h]
    | absolute others hothers =>
      rw [isAbsolute_relative hnames, isAbsolute_absolute] at habsolute
      cases habsolute
  | absolute names hnames =>
    cases hq with
    | relative others hothers =>
      rw [isAbsolute_relative hothers, isAbsolute_absolute] at habsolute
      cases habsolute
    | absolute others hothers =>
      rw [components_absolute hnames, components_absolute hothers] at h
      rw [ofSegment_injective.list_map (List.cons.inj h).2]

/-! ### Plain paths -/

theorem isName_text {c : Component} (h : c.IsSegment) : IsName c.text.toList := ⟨h.1, h.2.1⟩

theorem isTidy_ofComponents {components : List Component} (h : IsNormal components) :
    (ofComponents components).IsTidy := by
  have hnames {row : List Component} (hrow : ∀ c ∈ row, c.IsSegment) : ∀ s ∈ row.map (·.text.toList), IsName s := by
    intro s hs
    obtain ⟨c, hc, rfl⟩ := List.mem_map.1 hs
    exact isName_text (hrow c hc)
  rcases h.cases with ⟨row, rfl, hrow⟩ | ⟨hroot, hsegments⟩
  · exact .absolute _ (hnames fun c hc => (hrow c hc).1)
  · rw [ofComponents]
    · exact .relative _ (hnames hsegments)
    · rintro rest rfl
      exact hroot List.mem_cons_self

theorem isTidy_normalize (p : Path) : p.normalize.IsTidy := isTidy_ofComponents (isNormal_resolve p)

theorem isTidy_of_normalize_eq (h : p.normalize = p) : p.IsTidy := h ▸ isTidy_normalize p

/-! ### Joining -/

theorem eq_of_segments_eq (h : p.segments = q.segments) : p = q := by
  have hjoin (p : Path) : ['/'].intercalate p.segments = p.spelling.toList := List.intercalate_splitOn '/'
  have hspelling : p.spelling = q.spelling := by
    rw [← String.toList_inj, ← hjoin, ← hjoin, h]
  exact congrArg Path.mk hspelling

/-- A slash at the end leaves an empty segment behind it. -/
theorem getLast?_segments (h : p.spelling.toList.getLast? = some '/') : p.segments.getLast? = some [] := by
  obtain ⟨before, hbefore⟩ := List.getLast?_eq_some_iff.1 h
  rw [segments, hbefore, List.splitOn_append_cons_self, List.splitOn_nil, List.getLast?_concat]

/-- A path whose last segment is a name is joined with a slash. -/
theorem segments_join_of_getLast? (hp : ∀ s ∈ p.segments.getLast?, isVoid s = false) (hq : q.isAbsolute = false) :
    (p.join q).segments = p.segments ++ q.segments := by
  apply segments_join _ _ hq
  · intro hempty
    have hvoid : isVoid [] = false := hp [] (by rw [segments, String.isEmpty_iff.1 hempty]; rfl)
    cases hvoid
  · intro hslash
    have hvoid : isVoid [] = false := hp [] (getLast?_segments hslash)
    cases hvoid

section Lead
variable {lead : Option Component} (hlead : lead = none ∨ lead = some .root)
include hlead

/-- Behind the root the first segment is empty. -/
theorem segments_ofParts {names : List (List Char)} (h : ∀ s ∈ names, IsName s) (hne : names ≠ []) :
    (ofParts lead names).segments = lead.toList.map (fun _ => []) ++ names := by
  rcases hlead with rfl | rfl
  · exact segments_ofParts_none (slash_not_mem_of_isName h) hne
  · exact segments_ofParts_root (slash_not_mem_of_isName h) hne

theorem getLast?_ofParts {names : List (List Char)} (h : ∀ s ∈ names, IsName s) (hne : names ≠ []) :
    ∀ s ∈ (ofParts lead names).segments.getLast?, isVoid s = false := by
  rw [segments_ofParts hlead h hne, List.getLast?_append_of_ne_nil _ hne]
  exact fun s hs => (h s (List.mem_of_getLast? hs)).2

theorem join_ofParts {front back : List (List Char)} (hfront : ∀ s ∈ front, IsName s)
    (hback : ∀ s ∈ back, IsName s) (hne : back ≠ []) :
    (ofParts lead front).join (ofParts none back) = ofParts lead (front ++ back) := by
  have hrelative := isAbsolute_relative hback
  by_cases hempty : front = []
  · rw [hempty, List.nil_append]
    rcases hlead with rfl | rfl
    · exact join_of_isEmpty rfl
    · have hjoint : (ofParts (some .root) []).joint = "" := rfl
      rw [join_eq_append _ hrelative, hjoint, ofParts, ofParts, ofParts, Path.mk.injEq, ← String.toList_inj,
        String.append_empty, String.toList_append, String.toList_ofList, String.toList_ofList,
        String.toList_ofList]
      rfl
  · have hboth : ∀ s ∈ front ++ back, IsName s := List.forall_mem_append.2 ⟨hfront, hback⟩
    apply eq_of_segments_eq
    rw [segments_join_of_getLast? (getLast?_ofParts hlead hfront hempty) hrelative,
      segments_ofParts hlead hfront hempty, segments_ofParts_none (slash_not_mem_of_isName hback) hne,
      segments_ofParts hlead hboth (List.append_ne_nil_of_right_ne_nil front hne), List.append_assoc]

end Lead

/-- What is joined to a path adds its own components to those of the path. -/
theorem components_join_relative (p : Path) {names : List (List Char)} (h : ∀ s ∈ names, IsName s) :
    (p.join (ofParts none names)).components = p.components ++ names.map Component.ofSegment := by
  have hrelative := isAbsolute_relative h
  by_cases hp : p.spelling.isEmpty
  · rw [join_of_isEmpty hp, components_relative h, show p = ⟨""⟩ from congrArg Path.mk (String.isEmpty_iff.1 hp)]
    rfl
  · rw [components_join hp hrelative]
    by_cases hempty : names = []
    · rw [hempty]
      rfl
    · rw [segments_ofParts_none (slash_not_mem_of_isName h) hempty, namesOf_eq_map h]

theorem IsTidy.join_relative (hp : p.IsTidy) {names : List (List Char)} (hnames : ∀ s ∈ names, IsName s)
    (hne : names ≠ []) : (p.join (ofParts none names)).IsTidy := by
  cases hp with
  | relative front hfront =>
    rw [join_ofParts (.inl rfl) hfront hnames hne]
    exact .relative _ (List.forall_mem_append.2 ⟨hfront, hnames⟩)
  | absolute front hfront =>
    rw [join_ofParts (.inr rfl) hfront hnames hne]
    exact .absolute _ (List.forall_mem_append.2 ⟨hfront, hnames⟩)

/-- A path that is not empty, seen from a tidy path. -/
theorem IsTidy.join (hp : p.IsTidy) (hq : q.IsTidy) (hne : q.spelling ≠ "") : (p.join q).IsTidy := by
  cases hq with
  | relative names hnames =>
    apply hp.join_relative hnames
    rintro rfl
    exact hne rfl
  | absolute names hnames =>
    rw [join_of_isAbsolute p (isAbsolute_absolute names)]
    exact .absolute names hnames

theorem IsTidy.components_join (hq : q.IsTidy) (hrelative : q.isAbsolute = false) (p : Path) :
    (p.join q).components = p.components ++ q.components := by
  cases hq with
  | relative names h => rw [components_join_relative p h, components_relative h]
  | absolute names h =>
    rw [isAbsolute_absolute] at hrelative
    cases hrelative

theorem mk_eq_ofParts (name : String) : Path.mk name = ofParts none [name.toList] := by
  rw [ofParts, List.intercalate_singleton, String.ofList_toList]

section Name
variable {name : String} (hname : IsName name.toList)
include hname

theorem isTidy_mk : (Path.mk name).IsTidy := by
  rw [mk_eq_ofParts]
  exact .relative _ (List.forall_mem_singleton.2 hname)

theorem isAbsolute_mk : (Path.mk name).isAbsolute = false := by
  rw [mk_eq_ofParts, isAbsolute_relative (List.forall_mem_singleton.2 hname)]

theorem components_mk_of_isName : components ⟨name⟩ = [Component.ofSegment name.toList] := by
  rw [mk_eq_ofParts, components_relative (List.forall_mem_singleton.2 hname), List.map_singleton]

theorem components_mk (hup : name ≠ "..") : components ⟨name⟩ = [.name name] := by
  have hsegment : name.toList ≠ ['.', '.'] := fun h => hup (String.toList_inj.1 h)
  rw [components_mk_of_isName hname, Component.ofSegment, if_neg hsegment, String.ofList_toList]

theorem IsTidy.entry (hp : p.IsTidy) : (p.entry name).IsTidy := by
  rw [Path.entry, mk_eq_ofParts]
  exact hp.join_relative (List.forall_mem_singleton.2 hname) (List.cons_ne_nil _ _)

end Name

/-! ### Cutting -/

section Parts
variable {names : List (List Char)} (h : ∀ s ∈ names, IsName s) (hne : names ≠ [])
include h hne

theorem parts_relative : (ofParts none names).lead = none ∧ (ofParts none names).body = names := by
  obtain ⟨first, rest, rfl⟩ := List.exists_cons_of_ne_nil hne
  obtain ⟨-, hvoid⟩ := h first List.mem_cons_self
  rw [lead, body, segments_ofParts_none (slash_not_mem_of_isName h) hne]
  constructor
  all_goals
    split
    · rename_i heq
      rw [(List.cons.inj heq).1] at hvoid
      cases hvoid
    · rename_i heq
      rw [(List.cons.inj heq).1] at hvoid
      cases hvoid
    · rfl

theorem parts_absolute :
    (ofParts (some .root) names).lead = some .root ∧ (ofParts (some .root) names).body = names := by
  obtain ⟨first, rest, rfl⟩ := List.exists_cons_of_ne_nil hne
  rw [lead, body, segments_ofParts_root (slash_not_mem_of_isName h) hne]
  exact ⟨rfl, rfl⟩

end Parts

/-- Behind the lead of a tidy path there are names, or nothing. -/
theorem IsTidy.body_cases (hp : p.IsTidy) : p.body = [[]] ∨
    (p.lead = none ∨ p.lead = some .root) ∧ p.body ≠ [] ∧ ∀ s ∈ p.body, IsName s := by
  cases hp with
  | relative names hnames =>
    by_cases hempty : names = []
    · rw [hempty]
      exact .inl rfl
    · obtain ⟨hlead, hbody⟩ := parts_relative hnames hempty
      rw [hlead, hbody]
      exact .inr ⟨.inl rfl, hempty, hnames⟩
  | absolute names hnames =>
    by_cases hempty : names = []
    · rw [hempty]
      exact .inl rfl
    · obtain ⟨hlead, hbody⟩ := parts_absolute hnames hempty
      rw [hlead, hbody]
      exact .inr ⟨.inr rfl, hempty, hnames⟩

theorem trimEnd_names {names : List (List Char)} (h : ∀ s ∈ names, IsName s) :
    Text.trimEnd isVoid names = names := by
  have hlast : ∀ s ∈ names.getLast?, isVoid s = false := fun s hs => (h s (List.mem_of_getLast? hs)).2
  simpa using Text.trimEnd_append (List.forall_mem_nil _) hlast

theorem IsTidy.parent (hp : p.IsTidy) (h : p.parent? = some q) : q.IsTidy := by
  rw [parent?] at h
  rcases hp.body_cases with hbody | ⟨hlead, hne, hnames⟩
  · have htrim : Text.trimEnd isVoid [[]] = [] := rfl
    rw [hbody, htrim] at h
    split at h
    · rw [← Option.some.inj h]
      exact .relative [] (List.forall_mem_nil _)
    · cases h
    · rename_i hcons _
      exact absurd rfl hcons
  · have hfront : ∀ s ∈ p.body.dropLast, IsName s := fun s hs => hnames s (List.dropLast_subset _ hs)
    rw [trimEnd_names hnames] at h
    split at h
    · exact absurd ‹_› hne
    · cases h
    · rw [trimEnd_names hfront] at h
      rw [← Option.some.inj h]
      rcases hlead with hlead | hlead
      · rw [hlead]
        exact .relative _ hfront
      · rw [hlead]
        exact .absolute _ hfront

theorem IsTidy.isName_of_mem_passed (hp : p.IsTidy) (n : Nat) : ∀ s ∈ passed n p.body, IsName s := by
  rcases hp.body_cases with hbody | ⟨-, -, hnames⟩
  · have hnothing : passed n [[]] = [] := by rw [passed.eq_def]; rfl
    rw [hbody, hnothing]
    exact List.forall_mem_nil _
  · exact fun s hs => hnames s ((passed_suffix n p.body).1.subset hs)

theorem IsTidy.relativize {root : Path} (hroot : root.isAbsolute = true) (hp : p.IsTidy) :
    (root.relativize p).IsTidy := by
  have hlength : root.components.length = (namesOf root.segments).length + 1 := by
    rw [components_of_isAbsolute hroot, List.length_cons]
  rw [Path.relativize, stripLead?, hlength]
  split
  · rw [Option.getD_some]
    refine .relative _ fun s hs => hp.isName_of_mem_passed _ s ((Text.trimEnd_prefix isVoid _).subset hs)
  · exact hp

/-! ### The ends of paths -/

theorem exists_getLast?_of_isName {name : String} (h : IsName name.toList) :
    ∃ c, name.toList.getLast? = some c ∧ c ≠ '/' := by
  refine ⟨_, List.getLast?_eq_some_getLast h.ne_nil, ?_⟩
  rintro hslash
  exact h.1 (hslash ▸ List.getLast_mem h.ne_nil)

/-- A joined path ends as the last part does. -/
theorem getLast?_join (p : Path) {c : Char} (h : q.spelling.toList.getLast? = some c) :
    (p.join q).spelling.toList.getLast? = some c := by
  by_cases hq : q.isAbsolute = true
  · rw [join_of_isAbsolute p hq, h]
  · have hne : q.spelling.toList ≠ [] := by
      intro hempty
      rw [hempty] at h
      cases h
    rw [join_eq_append p (Bool.eq_false_iff.2 hq), String.toList_append, List.getLast?_append_of_ne_nil _ hne, h]

/-! ### Plain entries -/

theorem IsTidy.normalize_eq_iff (hp : p.IsTidy) : p.normalize = p ↔ resolve p.components = p.components := by
  rw [← components_normalize]
  exact ⟨congrArg components, fun h => (isTidy_normalize p).eq_of_beq hp (beq_iff.2 h)⟩

/-- Only the root is tidy and ends in a slash. -/
theorem IsTidy.eq_root (hp : p.IsTidy) (hslash : p.spelling.toList.getLast? = some '/') : p = ⟨"/"⟩ := by
  have hvoid := getLast?_segments hslash
  have hnames {lead : Option Component} (hlead : lead = none ∨ lead = some .root) {names : List (List Char)}
      (h : ∀ s ∈ names, IsName s) (hlast : (ofParts lead names).segments.getLast? = some []) : names = [] := by
    by_contra hne
    exact absurd (getLast?_ofParts hlead h hne [] hlast) (by decide)
  cases hp with
  | relative names h =>
    rw [hnames (.inl rfl) h hvoid] at hslash
    cases hslash
  | absolute names h =>
    rw [hnames (.inr rfl) h hvoid]
    rfl

/-- A path that never leads up keeps a plain root plain. -/
theorem normalize_join {root : Path} (hplain : root.normalize = root) (hq : q.IsTidy) (hne : q.spelling ≠ "")
    (hdown : q.IsDownward) : (root.join q).normalize = root.join q := by
  rw [((isTidy_of_normalize_eq hplain).join hq hne).normalize_eq_iff]
  obtain ⟨names, hnames, hcomponents⟩ := hdown
  by_cases habsolute : q.isAbsolute = true
  · rw [join_of_isAbsolute root habsolute, hcomponents, if_pos habsolute, resolve_append_names _ hnames]
    rfl
  · rw [if_neg habsolute, List.nil_append] at hcomponents
    rw [hq.components_join (Bool.eq_false_iff.2 habsolute), hcomponents, resolve_append_names _ hnames,
      (isTidy_of_normalize_eq hplain).normalize_eq_iff.1 hplain]

section Entry
variable {name : String} (hname : IsName name.toList) (hup : name ≠ "..")
include hname hup

theorem normalize_entry (p : Path) : (p.entry name).normalize = p.normalize.entry name := by
  refine (isTidy_normalize _).eq_of_beq ((isTidy_normalize p).entry hname) (beq_iff.2 ?_)
  rw [components_normalize, components_entry p (components_mk hname hup),
    components_entry _ (components_mk hname hup), components_normalize, resolve_append_names]
  exact List.forall_mem_singleton.2 ⟨name, rfl⟩

/-- An entry is plain just where its directory is, unless that is spelled with a slash at the end. -/
theorem normalize_entry_eq_iff {c : Char} (hend : p.spelling.toList.getLast? = some c) (hslash : c ≠ '/') :
    (p.entry name).normalize = p.entry name ↔ p.normalize = p := by
  rw [normalize_entry hname hup]
  refine ⟨fun h => ?_, fun h => by rw [h]⟩
  have hrelative := isAbsolute_mk hname
  have hjoint : p.joint = "/" := by
    have hne : p.spelling.isEmpty = false := by
      rw [← Bool.not_eq_true, String.isEmpty_iff]
      rintro hempty
      rw [hempty] at hend
      cases hend
    rw [joint, hne, hend, if_neg (by simpa using hslash)]
  rw [entry, entry, join_eq_append _ hrelative, join_eq_append p hrelative, mk.injEq, String.append_left_inj,
    hjoint, joint] at h
  split at h
  · -- the plain directory would end in a slash itself, and be the root
    rw [String.append_empty] at h
    have hroot := (isTidy_normalize p).eq_root (by
      rw [h, String.toList_append]
      exact List.getLast?_concat)
    rw [hroot] at h
    have hempty : p.spelling = "" := by
      rw [← String.append_left_inj "/", ← h]
      rfl
    rw [hempty] at hend
    cases hend
  · rw [String.append_left_inj] at h
    exact congrArg mk h

end Entry

end Spelling

end JarPlan.Path
